/-
Sending to an IRC server, from irc.c, over the circular buffer of circbuffer.c.

No handler of the signal `irc-sending-text` changes the text.  The bytes that the
socket has accepted are recorded.  Reading behind the copy of the text, or outside the
buffer, makes the operation `none`.
-/

import Purple.CString
import Purple.CircBuffer

namespace Purple.Irc.Output

open List Memory CString CircBuffer

abbrev Bytes := List UInt8

inductive Errno where
  | again
  | other
deriving DecidableEq, Repr

/-- What `write` or `purple_ssl_write` returns, with the `errno` that is found behind it. -/
inductive Wrote where
  | took (count : Nat) (errno : Errno)
  | refused (errno : Errno)
deriving DecidableEq, Repr

def Wrote.errno : Wrote → Errno
  | .took _ errno => errno
  | .refused errno => errno

def Wrote.ret (len : Nat) : Wrote → Int
  | .took count _ => (min count len : Nat)
  | .refused _ => -1

/-- The part of a connection that writes; `lost` counts the errors it has reported. -/
structure IrcConn where
  outbuf : PurpleCircBuffer
  writeh : Bool
  socket : Bytes
  lost : Nat

/-- `do_send`: the socket takes as many bytes as the call returns. -/
def doSend (irc : IrcConn) (bytes : Bytes) (ret : Int) : IrcConn :=
  { irc with socket := irc.socket ++ bytes.take ret.toNat }

def connectionError (irc : IrcConn) : IrcConn := { irc with lost := irc.lost + 1 }

/-- What `irc_send_len` does once it knows the result. -/
def finishSend (irc : IrcConn) (tosend : Bytes) (buflen : Nat) (ret : Int) (errno : Errno) :
    Option IrcConn :=
  if ret ≤ 0 ∧ errno ≠ .again then some (connectionError irc)
  else if ret < buflen then
    -- a negative result counts as nothing sent
    (purpleCircBufferAppend irc.outbuf ((tosend.drop ret.toNat).take (buflen - ret.toNat))).map
      fun outbuf => { irc with outbuf, writeh := true }
  else some irc

/-- `tosend` is the copied string with its NUL. -/
def ircSendLen (irc : IrcConn) (buf : Bytes) (buflen : Nat) (wrote : Wrote) : Option IrcConn :=
  let tosend := cString buf ++ [0]
  if tosend.length < buflen then none
  else if irc.writeh then finishSend irc tosend buflen (-1) .again
  else
    let ret := wrote.ret buflen
    finishSend (doSend irc (tosend.take buflen) ret) tosend buflen ret wrote.errno

/-- What the callback writes: the cells at `outptr`. -/
def readable (outbuf : PurpleCircBuffer) (writelen : Nat) : Option Bytes :=
  (outbuf.buffer.load outbuf.outOffset writelen).bind fun cells => cells.mapM id

/-- What `irc_send_cb` does once it knows the result. -/
def finishCallback (irc : IrcConn) (bytes : Bytes) (ret : Int) (errno : Errno) : IrcConn :=
  if ret < 0 ∧ errno = .again then irc
  else if ret ≤ 0 then connectionError irc
  else
    { doSend irc bytes ret with outbuf := (purpleCircBufferMarkRead irc.outbuf ret.toNat).2 }

def ircSendCb (irc : IrcConn) (wrote : Wrote) : Option IrcConn :=
  let writelen := purpleCircBufferGetMaxRead irc.outbuf
  if writelen = 0 then some { irc with writeh := false }
  else
    (readable irc.outbuf writelen).map fun bytes =>
      finishCallback irc bytes (wrote.ret writelen) wrote.errno

inductive Call where
  | sendLen (buf : Bytes) (buflen : Nat) (wrote : Wrote)
  | writeReady (wrote : Wrote)

/-- A connection with the bytes that were passed to `irc_send_len`. -/
structure Sent where
  irc : IrcConn
  passed : Bytes

def passes (buf : Bytes) (buflen : Nat) : Bytes := (buf ++ [0]).take buflen

def step (state : Sent) : Call → Option Sent
  | .sendLen buf buflen wrote =>
    (ircSendLen state.irc buf buflen wrote).map fun irc =>
      { irc, passed := state.passed ++ passes buf buflen }
  | .writeReady wrote =>
    if state.irc.writeh then (ircSendCb state.irc wrote).map fun irc => { state with irc }
    else some state

/-- A connection as `irc_login` leaves it. -/
def Sent.start : Sent :=
  { irc := { outbuf := purpleCircBufferNew 512, writeh := false, socket := [], lost := 0 }
    passed := [] }

/-- The socket and the buffer behind it hold what was passed, in order and once. -/
structure Unbroken (state : Sent) : Prop where
  stream : ∃ queue, drain (state.irc.outbuf.bufused + 1) state.irc.outbuf = some (queue.map some) ∧
    state.irc.socket ++ queue = state.passed
  installed : 0 < state.irc.outbuf.bufused → state.irc.writeh = true
  undisturbed : 0 < state.irc.outbuf.bufused → ∀ buf buflen wrote next,
    step state (.sendLen buf buflen wrote) = some next → next.irc.socket = state.irc.socket

def remainder (irc : IrcConn) (buf : Bytes) (buflen : Nat) (wrote : Wrote) : Bytes :=
  if irc.writeh then passes buf buflen
  else (passes buf buflen).drop (wrote.ret buflen).toNat

/-- A direct write that gives up the connection: it fails, or takes nothing of a text,
while `errno` is not `EAGAIN`. -/
def GivesUp (buflen : Nat) (wrote : Wrote) : Prop :=
  wrote.errno = .other ∧ (wrote.ret buflen < 0 ∨ (wrote.ret buflen = 0 ∧ 0 < buflen))

/-- No NUL inside the text, no direct write that gives up, and no growth of the buffer
while its pointers stand at two names of one place. -/
def Sparing (state : Sent) : Call → Prop
  | .sendLen buf buflen wrote =>
    buflen ≤ (cString buf).length + 1 ∧
      (state.irc.writeh = false → ¬GivesUp buflen wrote) ∧
      ¬StaleGrowth ⟨state.irc.outbuf, []⟩ (.append (remainder state.irc buf buflen wrote))
  | .writeReady _ => True

/-- The bytes in the buffer, behind those that the socket has accepted. -/
structure Flows (state : Sent) (queue : Bytes) : Prop where
  holds : Holds state.irc.outbuf queue
  joined : state.irc.socket ++ queue = state.passed
  installed : queue ≠ [] → state.irc.writeh = true

variable {state : Sent} {queue : Bytes}

theorem flows_start : Flows Sent.start [] :=
  ⟨holds_new 512, rfl, fun impossible => absurd rfl impossible⟩

theorem cString_before_nul (buf : Bytes) : cString buf ++ [0] <+: buf ++ [0] := by
  induction buf with
  | nil => exact prefix_refl _
  | cons byte rest ih =>
    rw [cString, takeWhile_cons]
    by_cases nul : byte = 0
    · rw [nul]
      exact ⟨rest ++ [0], rfl⟩
    · rw [if_pos (bne_iff_ne.mpr nul)]
      exact (prefix_cons_inj byte).mpr ih

theorem copied_passes {buf : Bytes} {buflen : Nat} (inside : buflen ≤ (cString buf).length + 1) :
    (cString buf ++ [0]).take buflen = passes buf buflen := by
  obtain ⟨behind, same⟩ := cString_before_nul buf
  have within : buflen ≤ (cString buf ++ [0]).length := by
    rw [length_append, length_singleton]
    exact inside
  rw [passes, ← same, take_append_of_le_length within]

theorem passes_length {buf : Bytes} {buflen : Nat} (inside : buflen ≤ (cString buf).length + 1) :
    (passes buf buflen).length = buflen := by
  rw [← copied_passes inside, length_take, length_append, length_singleton]
  omega

theorem finishSend_flows {irc : IrcConn} {queue text : Bytes} {passed : Bytes} {tosend : Bytes}
    {buflen : Nat} (ret : Int) (errno : Errno) (holds : Holds irc.outbuf queue)
    (copied : tosend.take buflen = text) (sized : text.length = buflen)
    (joined : irc.socket ++ (queue ++ text.drop ret.toNat) = passed)
    (installed : queue ≠ [] → irc.writeh = true)
    (kept : errno = .other → 0 < ret ∨ text = [])
    (fresh : ¬StaleGrowth ⟨irc.outbuf, []⟩ (.append (text.drop ret.toNat))) :
    ∃ next rest, finishSend irc tosend buflen ret errno = some next ∧
      Flows ⟨next, passed⟩ rest ∧ next.socket = irc.socket := by
  have left : (tosend.drop ret.toNat).take (buflen - ret.toNat) = text.drop ret.toNat := by
    rw [← copied, drop_take]
  by_cases error : ret ≤ 0 ∧ errno ≠ .again
  · have other : errno = .other := by
      cases errno with
      | again => exact absurd rfl error.2
      | other => rfl
    have empty : text = [] := (kept other).resolve_left (by omega)
    refine ⟨connectionError irc, queue, if_pos error, ⟨holds, ?_, installed⟩, rfl⟩
    rw [← joined, empty, drop_nil, append_nil]
    rfl
  · by_cases more : ret < buflen
    · obtain ⟨outbuf, appended, after⟩ := purpleCircBufferAppend_holds holds fresh
      refine ⟨{ irc with outbuf, writeh := true }, queue ++ text.drop ret.toNat, ?_,
        ⟨after, joined, fun _ => rfl⟩, rfl⟩
      rw [finishSend, if_neg error, if_pos more, left, appended]
      rfl
    · have all : text.drop ret.toNat = [] := by
        apply drop_eq_nil_of_le
        omega
      refine ⟨irc, queue, by rw [finishSend, if_neg error, if_neg more], ⟨holds, ?_, installed⟩, rfl⟩
      rw [← joined, all, append_nil]

theorem sendLen_flows (flows : Flows state queue) {buf : Bytes} {buflen : Nat} {wrote : Wrote}
    (sparing : Sparing state (.sendLen buf buflen wrote)) :
    ∃ next rest, step state (.sendLen buf buflen wrote) = some next ∧ Flows next rest := by
  obtain ⟨holds, joined, installed⟩ := flows
  obtain ⟨inside, stays, fresh⟩ := sparing
  have copied := copied_passes inside
  have sized := passes_length inside
  have room : ¬(cString buf ++ [0]).length < buflen := by
    rw [length_append, length_singleton]
    omega
  rw [remainder] at fresh
  by_cases buffering : state.irc.writeh
  · rw [if_pos buffering] at fresh
    have behind : state.irc.socket ++ (queue ++ (passes buf buflen).drop (-1 : Int).toNat) =
        state.passed ++ passes buf buflen := by
      rw [← append_assoc, joined]
      rfl
    obtain ⟨next, rest, finished, flows, _⟩ := finishSend_flows (-1) .again holds copied sized
      behind installed (fun impossible => nomatch impossible) fresh
    exact ⟨_, rest, by simp only [step, ircSendLen, if_neg room, if_pos buffering, finished]; rfl, flows⟩
  · rw [if_neg buffering] at fresh
    have empty : queue = [] := by
      by_contra some'
      exact buffering (installed some')
    have direct : (doSend state.irc ((cString buf ++ [0]).take buflen) (wrote.ret buflen)).socket ++
        (queue ++ (passes buf buflen).drop (wrote.ret buflen).toNat) =
          state.passed ++ passes buf buflen := by
      rw [empty, append_nil] at joined
      change (state.irc.socket ++ _) ++ _ = _
      rw [copied, empty, nil_append, append_assoc, take_append_drop, joined]
    have taken : wrote.errno = .other → 0 < wrote.ret buflen ∨ passes buf buflen = [] := by
      intro other
      have notGiven := stays (Bool.eq_false_iff.mpr buffering)
      by_contra neither
      obtain ⟨notPositive, text⟩ := not_or.mp neither
      have positive : 0 < buflen := by
        rw [← sized]
        exact length_pos_of_ne_nil text
      exact notGiven ⟨other, by omega⟩
    obtain ⟨next, rest, finished, flows, _⟩ := @finishSend_flows
      (doSend state.irc ((cString buf ++ [0]).take buflen) (wrote.ret buflen)) queue _ _ _ _ _
      wrote.errno holds copied sized direct (fun some' => absurd empty some') taken fresh
    refine ⟨_, rest, ?_, flows⟩
    simp only [step, ircSendLen, if_neg room, if_neg buffering, finished]
    rfl

theorem readable_held {outbuf : PurpleCircBuffer} (holds : Holds outbuf queue) :
    readable outbuf (purpleCircBufferGetMaxRead outbuf) =
      some (queue.take (purpleCircBufferGetMaxRead outbuf)) := by
  rw [readable, getMaxRead_loads holds]
  exact mapM_stored _

theorem ret_bound (wrote : Wrote) (len : Nat) : (wrote.ret len).toNat ≤ len := by
  cases wrote with
  | took count errno =>
    simp only [Wrote.ret, Int.toNat_natCast]
    exact Nat.min_le_right _ _
  | refused errno => exact Nat.zero_le _

theorem finishCallback_flows (flows : Flows state queue) (buffering : state.irc.writeh = true)
    {ret : Int} (errno : Errno) (bound : ret.toNat ≤ purpleCircBufferGetMaxRead state.irc.outbuf) :
    ∃ rest, Flows ⟨finishCallback state.irc
      (queue.take (purpleCircBufferGetMaxRead state.irc.outbuf)) ret errno, state.passed⟩ rest := by
  obtain ⟨holds, joined, installed⟩ := flows
  by_cases later : ret < 0 ∧ errno = .again
  · rw [finishCallback, if_pos later]
    exact ⟨queue, holds, joined, installed⟩
  · by_cases failed : ret ≤ 0
    · rw [finishCallback, if_neg later, if_pos failed]
      exact ⟨queue, holds, joined, installed⟩
    · rw [finishCallback, if_neg later, if_neg failed]
      refine ⟨queue.drop ret.toNat, markRead_holds holds bound, ?_, fun _ => buffering⟩
      change (state.irc.socket ++ (queue.take _).take _) ++ queue.drop _ = state.passed
      rw [take_take, Nat.min_eq_left bound, append_assoc, take_append_drop, joined]

theorem writeReady_flows (flows : Flows state queue) (wrote : Wrote) :
    ∃ next rest, step state (.writeReady wrote) = some next ∧ Flows next rest := by
  by_cases buffering : state.irc.writeh
  · by_cases nothing : purpleCircBufferGetMaxRead state.irc.outbuf = 0
    · have empty := (getMaxRead_eq_zero_iff flows.holds).mp nothing
      refine ⟨{ state with irc := { state.irc with writeh := false } }, queue, ?_,
        ⟨flows.holds, flows.joined, fun some' => absurd empty some'⟩⟩
      simp only [step, if_pos buffering, ircSendCb, if_pos nothing]
      rfl
    · obtain ⟨rest, after⟩ := finishCallback_flows flows buffering wrote.errno (ret_bound wrote _)
      refine ⟨_, rest, ?_, after⟩
      simp only [step, if_pos buffering, ircSendCb, if_neg nothing, readable_held flows.holds]
      rfl
  · exact ⟨state, queue, if_neg buffering, flows⟩

theorem unbroken_of_flows (flows : Flows state queue) : Unbroken state := by
  obtain ⟨holds, joined, installed⟩ := flows
  have handler : 0 < state.irc.outbuf.bufused → state.irc.writeh = true := by
    intro positive
    apply installed
    rintro rfl
    rw [holds.used] at positive
    exact absurd positive (Nat.lt_irrefl 0)
  refine ⟨⟨queue, drain_holds holds _ (Nat.lt_succ_self _), joined⟩, handler, ?_⟩
  intro positive buf buflen wrote next stepped
  obtain ⟨irc, sent, rfl⟩ := Option.map_eq_some_iff.mp stepped
  simp only [ircSendLen, if_pos (handler positive), finishSend] at sent
  split at sent
  · cases sent
  · split at sent
    · cases sent
      rfl
    · split at sent
      · obtain ⟨outbuf, _, rfl⟩ := Option.map_eq_some_iff.mp sent
        rfl
      · cases sent
        rfl

theorem ircSendLen_unbroken (calls : List Call)
    (sparing : PartialRun.Admitted step Sparing Sent.start calls) (done : List Call)
    (reached : done <+: calls) :
    ∃ state, PartialRun.run step Sent.start done = some state ∧ Unbroken state := by
  obtain ⟨state, ran, queue, flows⟩ := PartialRun.reached
    (fun state : Sent => ∃ queue, Flows state queue)
    (fun state call ⟨queue, flows⟩ admitted => by
      cases call with
      | sendLen buf buflen wrote =>
        obtain ⟨next, rest, stepped, after⟩ := sendLen_flows flows admitted
        exact ⟨next, stepped, rest, after⟩
      | writeReady wrote =>
        obtain ⟨next, rest, stepped, after⟩ := writeReady_flows flows wrote
        exact ⟨next, stepped, rest, after⟩)
    ⟨[], flows_start⟩ sparing reached
  exact ⟨state, ran, unbroken_of_flows flows⟩

theorem ircSendLen_unbroken_witness :
    ∃ state, PartialRun.run step Sent.start
      [.sendLen [72, 105, 10] 3 (.took 1 .other), .writeReady (.took 2 .other)] = some state ∧
        Unbroken state := by
  apply ircSendLen_unbroken _ _ _ (prefix_refl _)
  refine ⟨⟨by decide, fun _ gives => ?_, fun stale => absurd stale.2.1 (by decide)⟩,
    fun next _ => ⟨trivial, fun _ _ => trivial⟩⟩
  rcases gives.2 with negative | zero
  · exact absurd negative (by decide)
  · exact absurd zero.1 (by decide)

/-- As many bytes as the buffer has, all of which the socket takes, and then one more,
before the handler has seen that nothing is left. -/
def staleSends : List Call :=
  [.sendLen (List.replicate 512 97) 512 (.refused .again), .writeReady (.took 512 .again),
    .sendLen (List.replicate 513 98) 513 (.refused .again)]

theorem staleSends_broken :
    ∃ state, PartialRun.run step Sent.start staleSends = some state ∧ ¬Unbroken state := by
  have computed : (PartialRun.run step Sent.start staleSends).map (fun state =>
      ((drain (state.irc.outbuf.bufused + 1) state.irc.outbuf).map (·.take 2),
        state.irc.socket, state.passed)) =
      some (some [some 98, some 97], List.replicate 512 97,
        List.replicate 512 97 ++ List.replicate 513 98) := by
    decide +kernel
  obtain ⟨state, ran, values⟩ := Option.map_eq_some_iff.mp computed
  obtain ⟨drained, values⟩ := Prod.mk.inj values
  obtain ⟨accepted, passed⟩ := Prod.mk.inj values
  refine ⟨state, ran, ?_⟩
  rintro ⟨⟨queue, read, joined⟩, _, _⟩
  rw [accepted, passed] at joined
  rw [read, append_cancel_left joined] at drained
  -- the second byte to be written is one of the first text
  revert drained
  decide

end Purple.Irc.Output
