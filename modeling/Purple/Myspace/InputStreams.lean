/-
Exactly the streams that every session parses.

Framed messages of a bounded length are parsed however they arrive.  Where a message is
not framed, some session takes another message for it or gets stuck in front of it, and
where one is too long, some session cannot grow its buffer.
-/

import Purple.Myspace.InputRuns

namespace Purple.Myspace

open List CString Memory Framing PartialRun

variable {base64 : Base64} {messages : List MsimMessage}

/-- What is complete was parsed and what is left is counted, with a NUL behind it, in a
buffer of the size that is kept. -/
structure Keeping (base64 : Base64) (messages : List MsimMessage) (wire : Wire) : Prop where
  processed : wire.session.processed =
    (complete (text base64) messages wire.received).map (unpacked base64)
  counted : wire.session.rxoff = (unconsumed (text base64) messages wire.received).length
  ended : wire.session.rxbuf[wire.session.rxoff]? = some (some 0)
  sized : wire.session.rxbuf.length = wire.session.rxsize

def Parses (base64 : Base64) (messages : List MsimMessage) : Prop :=
  ∀ events, arrived events <+: stream (text base64) messages →
    ∃ wire, run step Wire.start events = some wire ∧ Keeping base64 messages wire

def longestMessage : Nat := (guintLimit / readBufSize - 1) * readBufSize + 1

variable {session : MsimSession} {bytes : Bytes} {events : List Event} {msg : MsimMessage}
  {front later : List MsimMessage}

theorem longestMessage_eq : longestMessage = 279619 * 15360 + 1 := rfl

theorem arrived_append (first second : List Event) :
    arrived (first ++ second) = arrived first ++ arrived second := flatMap_append

structure Sound (bytes : Bytes) (wire : Wire) : Prop where
  arrived : wire.received ++ wire.socket = bytes
  stepped : readBufSize ∣ wire.session.rxsize
  fits : wire.session.rxsize < guintLimit

theorem sound_start : Sound [] Wire.start := ⟨rfl, Nat.dvd_refl _, by decide⟩

theorem growRxbuf_size {next : MsimSession} (grown : growRxbuf session = some next) :
    next.rxsize = session.rxsize + readBufSize ∧ session.rxsize + readBufSize < guintLimit ∧
      next.rxbuf = session.rxbuf.realloc (session.rxsize + readBufSize) ∧
      next.rxoff = session.rxoff ∧ next.processed = session.processed := by
  unfold growRxbuf at grown
  dsimp only at grown
  split at grown
  · rename_i fits
    cases grown
    exact ⟨rfl, fits, rfl, rfl, rfl⟩
  · cases grown

theorem step_sound {wire next : Wire} {event : Event} (sound : Sound bytes wire)
    (stepped : step wire event = some next) : Sound (bytes ++ arrived [event]) next := by
  cases event with
  | arrives more =>
    cases stepped
    refine ⟨?_, sound.stepped, sound.fits⟩
    change wire.received ++ (wire.socket ++ more) = bytes ++ (more ++ [])
    rw [← sound.arrived, append_nil, append_assoc]
  | readable most =>
    change Sound (bytes ++ []) next
    rw [append_nil]
    cases readable_reads stepped with
    | grows small grown socket received =>
      obtain ⟨size, fits, _⟩ := growRxbuf_size grown
      refine ⟨?_, ?_, ?_⟩
      · rw [received, socket, sound.arrived]
      · rw [size]
        exact Nat.dvd_add sound.stepped (Nat.dvd_refl _)
      · rw [size]
        exact fits
    | nothing large same empty =>
      rw [same]
      exact sound
    | takes large more some' fits done socket received =>
      have size := receive_size done
      refine ⟨?_, ?_, ?_⟩
      · rw [received, append_assoc, ← socket, sound.arrived]
      · rw [size]
        exact sound.stepped
      · rw [size]
        exact sound.fits

theorem run_sound {wire next : Wire} (sound : Sound bytes wire)
    (ran : run step wire events = some next) : Sound (bytes ++ arrived events) next := by
  induction events generalizing bytes wire with
  | nil =>
    cases ran
    change Sound (bytes ++ []) _
    rw [append_nil]
    exact sound
  | cons event events ih =>
    obtain ⟨middle, stepped, ran⟩ := Option.bind_eq_some_iff.mp ran
    have later := ih (step_sound sound stepped) ran
    rw [append_assoc, ← arrived_append] at later
    exact later

theorem msimInputCb_grow (small : full session = true) (reading : Reading) :
    msimInputCb session reading = growRxbuf session := if_pos small

theorem msimInputCb_read (large : full session = false) (reading : Reading) :
    msimInputCb session reading =
      match reading with
      | .data bytes => receive session bytes
      | .again => some session
      | .failed => some (connectionError session)
      | .closed => some (connectionError session) :=
  if_neg (by rw [large]; exact Bool.false_ne_true)

theorem Keeps.grown {session next : MsimSession} {tail : Bytes} (keeps : Keeps session tail)
    (grown : growRxbuf session = some next) : Keeps next tail := by
  obtain ⟨size, _, buffer, offset, _⟩ := growRxbuf_size grown
  refine ⟨?_, offset.trans keeps.counted, ?_⟩
  · rw [buffer]
    refine Block.prefix_realloc keeps.held ?_
    have inside := keeps.inside
    rw [length_append, length_map, length_singleton]
    omega
  · rw [buffer, Block.realloc_length, size]

theorem Keeps.ended {tail : Bytes} (keeps : Keeps session tail) :
    session.rxbuf[session.rxoff]? = some (some 0) := by
  obtain ⟨rest, whole⟩ := keeps.held
  rw [keeps.counted, ← whole, getElem?_append_left, getElem?_append_right]
  · rw [length_map, Nat.sub_self]
    rfl
  · exact Nat.le_of_eq (length_map _)
  · rw [length_append, length_map, length_singleton]
    exact Nat.lt_succ_self _

structure Splits (base64 : Base64) (messages : List MsimMessage) (wire : Wire) : Prop where
  keeps : Keeps wire.session (unconsumed (text base64) messages wire.received)
  processed : wire.session.processed =
    (complete (text base64) messages wire.received).map (unpacked base64)

theorem splits_keeping {wire : Wire} (splits : Splits base64 messages wire) :
    Keeping base64 messages wire :=
  ⟨splits.processed, splits.keeps.counted, splits.keeps.ended, splits.keeps.sized⟩

theorem text_positive (some' : msg ≠ []) : 0 < (text base64 msg).length := by
  rw [text_slashed base64 some', length_append]
  exact Nat.add_pos_right _ (by decide)

theorem splits_start (sendable : ∀ msg ∈ messages, Sendable msg) :
    Splits base64 messages Wire.start := by
  have nothing : complete (text base64) messages [] = [] :=
    complete_nil fun msg member => text_positive (sendable msg member).some'
  refine ⟨⟨?_, ?_, length_replicate⟩, ?_⟩
  · change (unconsumed (text base64) messages []).map some ++ _ <+: _
    rw [unconsumed_nil]
    change [some 0] <+: List.replicate (15359 + 1) (some 0)
    rw [replicate_succ]
    exact ⟨_, rfl⟩
  · change 0 = (unconsumed (text base64) messages []).length
    rw [unconsumed_nil]
    rfl
  · change [] = (complete (text base64) messages []).map _
    rw [nothing]
    rfl

structure Takes (base64 : Base64) (msg : MsimMessage) : Prop where
  framed : Framed base64 msg
  short : (text base64 msg).length ≤ longestMessage

theorem unconsumed_short (short : ∀ msg ∈ messages, (text base64 msg).length ≤ longestMessage)
    {received : Bytes} (arrived : received <+: stream (text base64) messages) :
    (unconsumed (text base64) messages received).length < longestMessage := by
  obtain ⟨later, split, _, front, incomplete⟩ := arrived_split arrived
  cases later with
  | nil =>
    rw [prefix_nil.mp front]
    decide
  | cons msg later =>
    rw [complete] at incomplete
    split at incomplete
    · cases incomplete
    · rename_i partly
      have bound := short msg (by
        rw [split]
        exact mem_append_right _ mem_cons_self)
      omega

theorem grow_room (stepped : readBufSize ∣ session.rxsize) (small : full session = true)
    (short : session.rxoff < longestMessage) : ∃ next, growRxbuf session = some next := by
  have small := of_decide_eq_true small
  have fits : session.rxsize + readBufSize < guintLimit := by
    obtain ⟨count, size⟩ := stepped
    rw [longestMessage_eq] at short
    simp only [readBufSize, guintLimit] at *
    omega
  unfold growRxbuf
  dsimp only
  rw [if_pos fits]
  exact ⟨_, rfl⟩

theorem readable_splits {wire : Wire} {most : Nat} (sendable : ∀ msg ∈ messages, Sendable msg)
    (all : ∀ msg ∈ messages, Takes base64 msg) (sound : Sound bytes wire)
    (arrived : bytes <+: stream (text base64) messages) (splits : Splits base64 messages wire) :
    ∃ next, step wire (.readable most) = some next ∧ Splits base64 messages next := by
  have read : wire.received <+: stream (text base64) messages := by
    rw [← sound.arrived] at arrived
    exact (prefix_append _ _).trans arrived
  cases small : full wire.session with
  | true =>
    have short := unconsumed_short (fun msg member => (all msg member).short) read
    rw [← splits.keeps.counted] at short
    obtain ⟨grown, done⟩ := grow_room sound.stepped small short
    have taken' : taken wire most = [] := by rw [taken, small, if_pos rfl]
    refine ⟨{ session := grown, socket := wire.socket, received := wire.received }, ?_,
      splits.keeps.grown done, ?_⟩
    · rw [step, taken', msimInputCb_grow small, done, append_nil]
      rfl
    · exact (growRxbuf_size done).2.2.2.2.trans splits.processed
  | false =>
    have taken' : taken wire most = wire.socket.take (min most (room wire.session)) := by
      rw [taken, small, if_neg Bool.false_ne_true]
    generalize front : wire.socket.take (min most (room wire.session)) = data at taken'
    by_cases none' : data = []
    · refine ⟨wire, ?_, splits⟩
      rw [step, taken', if_pos none', msimInputCb_read small, none', append_nil]
      rfl
    · have within : data.length ≤ room wire.session := by
        rw [← front, length_take]
        omega
      have large : ¬wire.session.rxsize < wire.session.rxoff + readBufSize :=
        of_decide_eq_false small
      have counted := splits.keeps.counted
      have inside : (unconsumed (text base64) messages wire.received).length + data.length <
          wire.session.rxsize := by
        simp only [room, readBufSize] at within large
        omega
      obtain ⟨stored, done, kept, same, _⟩ := receive_stored splits.keeps inside
      have whole : wire.received ++ data <+: stream (text base64) messages := by
        rw [← sound.arrived] at arrived
        refine List.IsPrefix.trans ?_ arrived
        rw [prefix_append_right_inj, ← front]
        exact take_prefix _ _
      obtain ⟨later, split, behind, completed, left⟩ := arrived_more whole
      have among : ∀ msg ∈ later, msg ∈ messages := fun msg member => by
        rw [split]
        exact mem_append_right _ member
      obtain ⟨next, finished, kept', more, _⟩ := finalRounds_framed
        (fun msg member => sendable msg (among msg member))
        (fun msg member => (all msg (among msg member)).framed)
        behind kept (Nat.lt_succ_self _)
      refine ⟨{ session := next, socket := wire.socket.drop data.length
                received := wire.received ++ data }, ?_, ?_, ?_⟩
      · rw [step, taken', if_neg none', msimInputCb_read small]
        dsimp only
        rw [done, finished]
        rfl
      · dsimp only
        rw [left]
        exact kept'
      · dsimp only
        rw [completed, more, same, splits.processed, map_append]

theorem run_splits {wire : Wire} (sendable : ∀ msg ∈ messages, Sendable msg)
    (all : ∀ msg ∈ messages, Takes base64 msg) (sound : Sound bytes wire)
    (splits : Splits base64 messages wire)
    (inside : bytes ++ arrived events <+: stream (text base64) messages) :
    ∃ next, run step wire events = some next ∧ Splits base64 messages next := by
  induction events generalizing bytes wire with
  | nil => exact ⟨wire, rfl, splits⟩
  | cons event events ih =>
    have here : ∃ next, step wire event = some next ∧ Splits base64 messages next := by
      cases event with
      | arrives more => exact ⟨_, rfl, splits.keeps, splits.processed⟩
      | readable most =>
        exact readable_splits sendable all sound ((prefix_append _ _).trans inside) splits
    obtain ⟨next, stepped, splits'⟩ := here
    rw [run_cons, stepped]
    refine ih (step_sound sound stepped) splits' ?_
    rw [append_assoc, ← arrived_append]
    exact inside

structure Reached (bytes : Bytes) (wire : Wire) : Prop where
  run : ∃ events, arrived events = bytes ∧ run step Wire.start events = some wire

theorem Reached.sound {wire : Wire} (reached : Reached bytes wire) : Sound bytes wire := by
  obtain ⟨events, rfl, ran⟩ := reached.run
  exact run_sound sound_start ran

theorem reached_run {wire next : Wire} (reached : Reached bytes wire)
    (ran : run step wire events = some next) : Reached (bytes ++ arrived events) next := by
  obtain ⟨before, rfl, start⟩ := reached.run
  refine ⟨before ++ events, arrived_append _ _, ?_⟩
  rw [run_append, start]
  exact ran

theorem parses_reached (parses : Parses base64 messages) {wire : Wire}
    (reached : Reached bytes wire) (inside : bytes <+: stream (text base64) messages) :
    Keeping base64 messages wire := by
  obtain ⟨events, rfl, ran⟩ := reached.run
  obtain ⟨other, again, keeping⟩ := parses events inside
  rw [ran] at again
  cases again
  exact keeping

theorem parses_step (parses : Parses base64 messages) {wire : Wire} (reached : Reached bytes wire)
    {event : Event} (inside : bytes ++ arrived [event] <+: stream (text base64) messages) :
    ∃ next, step wire event = some next := by
  obtain ⟨events, rfl, ran⟩ := reached.run
  rw [← arrived_append] at inside
  obtain ⟨next, again, _⟩ := parses (events ++ [event]) inside
  rw [run_append, ran, Option.bind_some, run_cons] at again
  obtain ⟨middle, stepped, _⟩ := Option.bind_eq_some_iff.mp again
  exact ⟨middle, stepped⟩

theorem settles (parses : Parses base64 messages) {wire : Wire} (reached : Reached bytes wire)
    (inside : bytes <+: stream (text base64) messages) :
    ∃ events next, arrived events = [] ∧ run step wire events = some next ∧
      next.socket = [] ∧ full next.session = false := by
  induction size : guintLimit - wire.session.rxsize + wire.socket.length
    using Nat.strongRecOn generalizing wire with
  | ind size' ih =>
    by_cases settled : wire.socket = [] ∧ full wire.session = false
    · exact ⟨[], wire, rfl, rfl, settled⟩
    · have inside' : bytes ++ arrived [Event.readable 1] <+: stream (text base64) messages := by
        change bytes ++ [] <+: _
        rw [append_nil]
        exact inside
      obtain ⟨next, stepped⟩ := parses_step parses reached inside'
      have ran : run step wire [.readable 1] = some next := by
        rw [run_cons, stepped]
        rfl
      have reached' := reached_run reached ran
      change Reached (bytes ++ []) next at reached'
      rw [append_nil] at reached'
      have smaller : guintLimit - next.session.rxsize + next.socket.length < size' := by
        have fits := reached.sound.fits
        rw [← size]
        cases readable_reads stepped with
        | grows small grown socket received =>
          obtain ⟨larger, fits', _⟩ := growRxbuf_size grown
          rw [larger, socket]
          simp only [readBufSize] at fits' ⊢
          omega
        | nothing large same empty =>
          have large' : ¬wire.session.rxsize < wire.session.rxoff + readBufSize :=
            of_decide_eq_false large
          have some' : wire.socket ≠ [] := fun none' => settled ⟨none', large⟩
          have positive : min 1 (room wire.session) = 1 := by
            simp only [room, readBufSize] at large' ⊢
            omega
          rw [positive] at empty
          obtain ⟨byte, rest, split⟩ := exists_cons_of_ne_nil some'
          rw [split] at empty
          cases empty
        | takes large more some' fits' done socket received =>
          have positive := length_pos_iff.mpr some'
          rw [receive_size done, socket, length_append]
          omega
      obtain ⟨events, last, nothing, later, settled'⟩ := ih _ smaller reached' rfl
      refine ⟨.readable 1 :: events, last, nothing, ?_, settled'⟩
      rw [run_cons, stepped]
      exact later

theorem reaches (parses : Parses base64 messages) {more : Bytes} {wire : Wire}
    (reached : Reached bytes wire) (inside : bytes ++ more <+: stream (text base64) messages) :
    ∃ events next, arrived events = more ∧ run step wire events = some next ∧
      Reached (bytes ++ more) next ∧ next.received = bytes ++ more ∧
      full next.session = false := by
  have ran : run step wire [.arrives more] = some { wire with socket := wire.socket ++ more } := rfl
  have reached' := reached_run reached ran
  change Reached (bytes ++ (more ++ [])) _ at reached'
  rw [append_nil] at reached'
  obtain ⟨events, next, nothing, later, empty, large⟩ := settles parses reached' inside
  have last := reached_run reached' later
  rw [nothing, append_nil] at last
  refine ⟨.arrives more :: events, next, ?_, ?_, last, ?_, large⟩
  · change more ++ arrived events = more
    rw [nothing, append_nil]
  · exact later
  · have all := last.sound.arrived
    rw [empty, append_nil] at all
    exact all

theorem reached_start : Reached [] Wire.start := ⟨[], rfl, rfl⟩

theorem stream_front (split : messages = front ++ msg :: later) {part : Bytes}
    (initial : part <+: text base64 msg) :
    stream (text base64) front ++ part <+: stream (text base64) messages := by
  rw [split, stream_append, stream_cons]
  exact (prefix_append_right_inj _).mpr (initial.trans (prefix_append _ _))

theorem complete_part (split : messages = front ++ msg :: later) {part : Bytes}
    (short : part.length < (text base64 msg).length) :
    complete (text base64) messages (stream (text base64) front ++ part) = front ∧
      unconsumed (text base64) messages (stream (text base64) front ++ part) = part := by
  rw [split, complete_front, unconsumed_front, complete, unconsumed, if_neg (Nat.not_le_of_lt short),
    if_neg (Nat.not_le_of_lt short), append_nil]
  exact ⟨rfl, rfl⟩

theorem complete_message (split : messages = front ++ msg :: later) :
    front ++ [msg] <+: complete (text base64) messages
      (stream (text base64) front ++ text base64 msg) := by
  rw [split, complete_front, complete, if_pos (Nat.le_refl _)]
  exact ⟨_, append_assoc _ _ _⟩

theorem short_of_parses (parses : Parses base64 messages) (member : msg ∈ messages) :
    (text base64 msg).length ≤ longestMessage := by
  by_contra long
  rw [Nat.not_le] at long
  obtain ⟨front, later, split⟩ := append_of_mem member
  have part : ((text base64 msg).take longestMessage).length = longestMessage :=
    length_take_of_le (Nat.le_of_lt long)
  have inside : [] ++ (stream (text base64) front ++ (text base64 msg).take longestMessage) <+:
      stream (text base64) messages := stream_front split ( take_prefix _ _)
  obtain ⟨_, wire, _, _, reached, received, large⟩ := reaches parses reached_start inside
  have counted := (parses_reached parses reached inside).counted
  rw [received, nil_append, (complete_part split (part.trans_lt long)).2, part,
    longestMessage_eq] at counted
  have large' : ¬wire.session.rxsize < wire.session.rxoff + readBufSize :=
    of_decide_eq_false large
  obtain ⟨count, size⟩ := reached.sound.stepped
  have fits := reached.sound.fits
  simp only [readBufSize, guintLimit] at *
  omega

end Purple.Myspace
