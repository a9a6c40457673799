/-
The handshake with a SOCKS5 proxy over every two ways of cutting what the proxy sends.
-/

import Purple.Proxy.Socks5Chap
import Purple.PartialRun

namespace Purple.Proxy

open List Option Memory PartialRun

variable {settings : Settings}

/-! ### One read -/

variable {readCb : ReadCb} {reader : Reader} {awaiting : Awaiting} {next : Awaiting × List Action}
  {outcome : Outcome} {actions : List Action} {connection : Connection}

theorem Ready.room {readCb : ReadCb} {reader : Reader} {got : Bytes} {size : Nat}
    (ready : Ready readCb reader got size) : room readCb reader = size - got.length := by
  obtain ⟨_, sized, counted⟩ := ready
  rw [Proxy.room, sized, counted]

theorem agrees_room (agrees : Agrees (some readCb) reader awaiting) : 0 < room readCb reader := by
  cases awaiting with
  | method got =>
    obtain ⟨same, short, ready⟩ := agrees
    cases same
    rw [ready.room]
    omega
  | auth got =>
    obtain ⟨same, short, ready⟩ := agrees
    cases same
    rw [ready.room]
    omega
  | header got =>
    obtain ⟨same, short, ready⟩ := agrees
    cases same
    rw [ready.room]
    omega
  | chap left got =>
    obtain ⟨same, _, _, incomplete, ready⟩ := agrees
    cases same
    have bound : got.length < 257 := by
      match got with
      | [] => exact Nat.succ_pos _
      | [_] => exact Nat.succ_lt_succ (Nat.succ_pos _)
      | kind :: length :: value =>
        have short : value.length < length.toNat := incomplete
        have byte := length.toNat_lt
        rw [length_cons, length_cons]
        omega
    rw [ready.room, length_cons, length_cons]
    omega
  | reply got =>
    obtain ⟨same, size, ready, more, _, _⟩ := agrees
    cases same
    rw [ready.room]
    omega
  | finished => cases agrees

theorem agrees_allocate (agrees : Agrees (some readCb) reader awaiting) :
    Agrees (some readCb) (reader.allocate (readSize readCb)) awaiting := by
  cases awaiting with
  | method got =>
    obtain ⟨same, short, ready⟩ := agrees
    cases same
    exact ⟨rfl, short, Held.ready ready⟩
  | auth got =>
    obtain ⟨same, short, ready⟩ := agrees
    cases same
    exact ⟨rfl, short, Held.ready ready⟩
  | header got =>
    obtain ⟨same, short, ready⟩ := agrees
    cases same
    exact ⟨rfl, short, Held.ready ready⟩
  | chap left got =>
    obtain ⟨same, positive, small, incomplete, ready⟩ := agrees
    cases same
    exact ⟨rfl, positive, small, incomplete, Held.ready ready⟩
  | reply got =>
    obtain ⟨same, size, ready, more, large, bound⟩ := agrees
    cases same
    exact ⟨rfl, size, Held.ready ready, more, large, bound⟩
  | finished => cases agrees

theorem receive_data {got bytes : Bytes} {size : Nat} (ready : Ready readCb reader got size)
    (fits : bytes.length ≤ room readCb reader) (parse : Reader → Option Outcome) :
    ∃ next, Held next (got ++ bytes) size ∧
      receive (readSize readCb) reader (.data bytes) parse = parse next := by
  rw [ready.room] at fits
  have bound := Held.length_le ready
  obtain ⟨next, stored, held⟩ := Held.store ready (by omega : got.length + bytes.length ≤ size)
  refine ⟨next, held, ?_⟩
  rw [receive]
  simp only [stored, bind_some]

theorem callback_meets {bytes : Bytes} (agrees : Agrees (some readCb) reader awaiting)
    (some' : bytes ≠ []) (fits : bytes.length ≤ room readCb reader)
    (fed : feeds settings awaiting bytes = some next) (late : ¬ActsEarly settings awaiting bytes) :
    ∃ outcome, callback settings readCb reader (.data bytes) = some outcome ∧
      Meets readCb outcome next := by
  cases awaiting with
  | method got =>
    obtain ⟨same, short, ready⟩ := agrees
    cases same
    obtain ⟨parsed, held, ran⟩ := receive_data ready fits (parseMethod settings)
    have bound : got.length + bytes.length ≤ 2 := by
      rw [← length_append]
      exact held.length_le
    obtain ⟨outcome, done, meets⟩ := parseMethod_meets short some' bound held fed
    exact ⟨outcome, ran.trans done, meets⟩
  | auth got =>
    obtain ⟨same, short, ready⟩ := agrees
    cases same
    obtain ⟨parsed, held, ran⟩ := receive_data ready fits (parseAuth settings)
    have bound : got.length + bytes.length ≤ 2 := by
      rw [← length_append]
      exact held.length_le
    obtain ⟨outcome, done, meets⟩ := parseAuth_meets short some' bound held fed
    exact ⟨outcome, ran.trans done, meets⟩
  | header got =>
    obtain ⟨same, short, ready⟩ := agrees
    cases same
    obtain ⟨parsed, held, ran⟩ := receive_data ready fits fun reader =>
      chapMessages settings (reader.readLen + 1) reader
    have silent : feeds settings (.header []) got = some (.header got, []) := by
      match got with
      | [] => rfl
      | [_] => rfl
    obtain ⟨outcome, done, meets⟩ := readchap_meets held silent fed late
    exact ⟨outcome, ran.trans done, meets⟩
  | chap left got =>
    obtain ⟨same, positive, small, incomplete, ready⟩ := agrees
    cases same
    obtain ⟨parsed, held, ran⟩ := receive_data ready fits fun reader =>
      chapMessages settings (reader.readLen + 1) reader
    have count : (byteOf left).toNat = left := by
      rw [byteOf, UInt8.toNat_ofNat']
      exact Nat.mod_eq_of_lt small
    have silent : feeds settings (.header []) (1 :: byteOf left :: got) =
        some (.chap left got, []) := by
      rw [feeds_head, if_neg (not_not.mpr rfl), count, attributes,
        if_neg (Nat.ne_of_gt positive), feeds_incomplete incomplete]
    obtain ⟨outcome, done, meets⟩ := readchap_meets held silent fed late
    exact ⟨outcome, ran.trans done, meets⟩
  | reply got =>
    obtain ⟨same, size, ready, more, large, bound⟩ := agrees
    cases same
    obtain ⟨parsed, held, ran⟩ := receive_data ready fits parseReply
    obtain ⟨outcome, done, meets⟩ := parseReply_meets some' held large bound fed
    exact ⟨outcome, ran.trans done, meets⟩
  | finished => cases agrees

/-! ### Where the connection is made -/

theorem acted_connected {next : Awaiting} (done : acted outcome = some (next, actions))
    (connected : .connected ∈ actions) : outcome = .ends .connected := by
  cases outcome with
  | waits reader => cases done
  | ends action =>
    cases done
    rw [← mem_singleton.mp connected]
  | sends request readCb =>
    cases done
    cases mem_singleton.mp connected

theorem acted_reply {got : Bytes} (done : acted outcome = some (.reply got, actions)) :
    ∃ request, .sends request ∈ actions := by
  cases outcome with
  | waits reader => cases done
  | ends action => cases done
  | sends request readCb =>
    obtain ⟨_, same⟩ := Prod.mk.inj (Option.some.inj done)
    exact ⟨request, same ▸ mem_cons_self⟩

theorem chooseMethod_never {version method : UInt8} :
    chooseMethod settings version method ≠ some (.ends .connected) := by
  unfold chooseMethod s5Sendconnect disconnect
  split
  · simp
  · split
    · simp
    · split
      · cases settings.username <;> simp
      · simp

theorem checkAuth_never {version status : UInt8} :
    checkAuth settings version status ≠ .ends .connected := by
  unfold checkAuth s5Sendconnect disconnect
  split <;> simp

theorem chapAttribute_never {kind : UInt8} {value : Bytes} :
    chapAttribute settings kind value ≠ some (some (.ends .connected)) := by
  unfold chapAttribute s5Sendconnect disconnect
  split
  · split <;> simp
  · split
    · cases settings.password <;> simp
    · split
      · split <;> simp
      · simp

theorem attributeTaken_cases {left : Nat} {kind : UInt8} {value : Bytes}
    (done : attributeTaken settings left kind value = some next) :
    next = (attributes left, []) ∨
      ∃ outcome, chapAttribute settings kind value = some (some outcome) ∧
        acted outcome = some next := by
  unfold attributeTaken at done
  split at done
  · exact Or.inl (Option.some.inj done).symm
  · obtain ⟨stopped, known, done⟩ := bind_eq_some_iff.mp done
    cases stopped with
    | none => exact Or.inl (Option.some.inj done).symm
    | some outcome => exact Or.inr ⟨outcome, known, done⟩

theorem attributes_not_reply (left : Nat) (got : Bytes) : attributes left ≠ .reply got := by
  unfold attributes
  split <;> simp

/-- A byte waits, is acted on, or does nothing to another kind of reply. -/
inductive Fed (awaiting : Awaiting) (next : Awaiting × List Action) : Prop where
  | silent (quiet : next.2 = []) (apart : ∀ got, next.1 ≠ .reply got)
  | acts (outcome : Outcome) (other : outcome ≠ .ends .connected) (done : acted outcome = some next)
  | reply (got : Bytes) (same : awaiting = .reply got)

theorem fed_attribute {left : Nat} {kind : UInt8} {value : Bytes}
    (done : attributeTaken settings left kind value = some next) : Fed awaiting next := by
  rcases attributeTaken_cases done with rfl | ⟨outcome, known, after⟩
  · exact .silent rfl (attributes_not_reply left)
  · refine .acts outcome (fun same => ?_) after
    exact chapAttribute_never (same ▸ known)

theorem feed_cases {byte : UInt8} (fed : feed settings awaiting byte = some next) :
    Fed awaiting next := by
  unfold feed at fed
  split at fed
  · cases fed
    exact .silent rfl (fun _ => by simp)
  · obtain ⟨outcome, chosen, done⟩ := bind_eq_some_iff.mp fed
    exact .acts outcome (fun same => chooseMethod_never (same ▸ chosen)) done
  · cases fed
    exact .silent rfl (fun _ => by simp)
  · exact .acts _ checkAuth_never fed
  · cases fed
    exact .silent rfl (fun _ => by simp)
  · split at fed
    · exact .acts _ (by simp [disconnect]) fed
    · cases fed
      exact .silent rfl (attributes_not_reply _)
  · cases fed
    exact .silent rfl (fun _ => by simp)
  · split at fed
    · exact fed_attribute fed
    · cases fed
      exact .silent rfl (fun _ => by simp)
  · split at fed
    · cases fed
      exact .silent rfl (fun _ => by simp)
    · exact fed_attribute fed
  · exact .reply _ rfl
  · cases fed
    exact .silent rfl (fun _ => by simp)

/-- The connection is made while the reply to CONNECT is read, unless a request was sent
on the way to it. -/
theorem connected_from_reply {next : Awaiting} {bytes : Bytes}
    (fed : feeds settings awaiting bytes = some (next, actions))
    (connected : .connected ∈ actions) (late : ¬ActsEarly settings awaiting bytes) :
    ∃ got, awaiting = .reply got := by
  induction bytes generalizing awaiting actions with
  | nil =>
    cases fed
    cases connected
  | cons byte rest ih =>
    obtain ⟨middle, early, after, first, second, joined⟩ :=
      @feeds_front settings awaiting next actions [byte] rest fed
    rw [feeds_single] at first
    rw [joined] at connected
    -- a request, and bytes behind it
    have sentEarly (request : Bytes) (sent : .sends request ∈ early) (some' : rest ≠ []) : False :=
      late ⟨[byte], rest, middle, early, request, rfl, some', by rw [feeds_single, first], sent⟩
    rcases mem_append.mp connected with now | later
    · cases feed_cases first with
      | silent quiet _ =>
        rw [show early = [] from quiet] at now
        cases now
      | acts outcome other done => exact absurd (acted_connected done now) other
      | reply got same => exact ⟨got, same⟩
    · have some' : rest ≠ [] := by
        rintro rfl
        cases second
        cases later
      have lateBehind : ¬ActsEarly settings middle rest := by
        rintro ⟨front, behind, last, acts, request, rfl, more, fedFront, sent⟩
        refine late ⟨byte :: front, behind, last, early ++ acts, request, rfl, more, ?_,
          mem_append_right _ sent⟩
        rw [feeds, first, bind_some, fedFront]
        rfl
      obtain ⟨got, same⟩ := ih second later lateBehind
      cases feed_cases first with
      | silent _ apart => exact absurd same (apart got)
      | acts outcome _ done =>
        rw [same] at done
        obtain ⟨request, sent⟩ := acted_reply done
        exact (sentEarly request sent some').elim
      | reply got same => exact ⟨got, same⟩

theorem connected_exact {next : Awaiting} {first rest : Bytes}
    (agrees : Agrees (some readCb) reader awaiting)
    (fits : (first ++ rest).length ≤ room readCb reader) (some' : rest ≠ [])
    (fed : feeds settings awaiting (first ++ rest) = some (next, actions))
    (late : ¬ActsEarly settings awaiting (first ++ rest)) (connected : .connected ∈ actions) :
    ∃ middle early, feeds settings awaiting first = some (middle, early) ∧
      .connected ∉ early := by
  obtain ⟨got, rfl⟩ := connected_from_reply fed connected late
  obtain ⟨same, size, ready, more, large, bound⟩ := agrees
  cases same
  obtain ⟨middle, early, after, front, _, _⟩ := feeds_front fed
  refine ⟨middle, early, front, fun now => ?_⟩
  have positive := length_pos_of_ne_nil some'
  rw [ready.room, length_append] at fits
  by_cases nothing : first = []
  · rw [nothing] at front
    cases front
    cases now
  · rw [feeds_reply got nothing] at front
    cases known : replyOutcome (got ++ first) with
    | none =>
      rw [known] at front
      cases front
      cases now
    | some outcome =>
      rw [known] at front
      obtain ⟨outcome, rfl, done⟩ := bind_eq_some_iff.mp front
      rw [acted_connected done now] at known
      -- the connection is made at the last byte of the reply
      have whole := replyOutcome_connected known
      have longer := replyLength_mono got first
      rw [length_append] at whole
      omega

/-! ### Runs -/

/-- The read brings no byte behind a CHAP attribute that is acted on, and nothing that
asks for a user name or a password that is not set. -/
def Sparing (settings : Settings) (connection : Connection) (count : Nat) : Prop :=
  ∀ readCb awaiting actions, connection.readCb = some readCb →
    feeds settings (.method []) connection.consumed = some (awaiting, actions) →
      (∃ next, feeds settings awaiting (taken connection readCb count) = some next) ∧
        ¬ActsEarly settings awaiting (taken connection readCb count)

structure Follows (settings : Settings) (stream : Bytes) (connection : Connection) : Prop where
  split : connection.consumed ++ connection.socket = stream
  said : ∃ awaiting, Agrees connection.readCb connection.reader awaiting ∧
    feeds settings (.method []) connection.consumed = some (awaiting, connection.actions)
  live : connection.readCb ≠ none → .connected ∉ connection.actions
  least : ∀ shorter rest, connection.consumed = shorter ++ rest → rest ≠ [] →
    ∃ awaiting early, feeds settings (.method []) shorter = some (awaiting, early) ∧
      .connected ∉ early

theorem follows_start (stream : Bytes) : Follows settings stream (.start stream) := by
  refine ⟨rfl, ⟨.method [], agrees_fresh .s5Canread, rfl⟩, fun _ => not_mem_nil, ?_⟩
  intro shorter rest same some'
  exact absurd (append_eq_nil_iff.mp same.symm).2 some'

theorem finishCallback_follows {next : Awaiting} (installed : connection.readCb = some readCb)
    (meets : Meets readCb outcome (next, actions)) :
    Agrees (finishCallback connection outcome).readCb (finishCallback connection outcome).reader
        next ∧
      (finishCallback connection outcome).actions = connection.actions ++ actions ∧
      (finishCallback connection outcome).socket = connection.socket ∧
      (finishCallback connection outcome).consumed = connection.consumed ∧
      ((finishCallback connection outcome).readCb ≠ none → .connected ∉ actions) := by
  cases outcome with
  | waits reader =>
    obtain ⟨agrees, quiet⟩ := meets
    have none' : actions = [] := quiet
    rw [none', append_nil]
    refine ⟨?_, rfl, rfl, rfl, fun _ => not_mem_nil⟩
    change Agrees connection.readCb reader next
    rw [installed]
    exact agrees
  | ends action =>
    cases meets
    exact ⟨rfl, rfl, rfl, rfl, fun impossible => absurd rfl impossible⟩
  | sends request other =>
    cases meets
    refine ⟨agrees_fresh other, rfl, rfl, rfl, fun _ connected => ?_⟩
    cases mem_singleton.mp connected

theorem readStep_follows {stream : Bytes} {count : Nat}
    (follows : Follows settings stream connection) (sparing : Sparing settings connection count) :
    ∃ next, readStep settings connection count = some next ∧ Follows settings stream next := by
  obtain ⟨split, ⟨awaiting, agrees, said⟩, live, least⟩ := follows
  cases installed : connection.readCb with
  | none =>
    refine ⟨connection, by rw [readStep, installed], split, ⟨awaiting, agrees, said⟩, live, least⟩
  | some readCb =>
    rw [installed] at agrees
    obtain ⟨⟨⟨next, actions⟩, fed⟩, late⟩ := sparing readCb awaiting connection.actions installed said
    generalize bytes : taken connection readCb count = arrived at fed late
    have room := agrees_room agrees
    have fits : arrived.length ≤ Proxy.room readCb connection.reader := by
      rw [← bytes, taken, length_take]
      omega
    have initial : arrived ++ connection.socket.drop arrived.length = connection.socket := by
      have front : arrived <+: connection.socket := bytes ▸ take_prefix _ _
      obtain ⟨rest, same⟩ := front
      rw [← same, drop_left' rfl]
    -- the outcome of the callback for what arrived
    have called : ∃ outcome, callback settings readCb connection.reader
        (readReturns readCb connection.reader arrived) = some outcome ∧
          Meets readCb outcome (next, actions) := by
      rw [readReturns, if_neg (Nat.ne_of_gt room)]
      by_cases nothing : arrived = []
      · rw [nothing] at fed
        cases fed
        rw [if_pos nothing]
        refine ⟨.waits (connection.reader.allocate (readSize readCb)), ?_,
          agrees_allocate agrees, rfl⟩
        cases readCb <;> rfl
      · rw [if_neg nothing]
        exact callback_meets agrees nothing fits fed late
    obtain ⟨outcome, called, meets⟩ := called
    generalize reading : { connection with
      socket := connection.socket.drop arrived.length
      consumed := connection.consumed ++ arrived } = middle
    have installed' : middle.readCb = some readCb := reading ▸ installed
    obtain ⟨agreesNext, acts, socket, consumed, liveNext⟩ :=
      finishCallback_follows installed' meets
    have whole : feeds settings (.method []) (connection.consumed ++ arrived) =
        some (next, connection.actions ++ actions) := by
      rw [feeds_append, said, bind_some, fed]
      rfl
    refine ⟨finishCallback middle outcome, ?_, ?_, ⟨next, agreesNext, ?_⟩, ?_, ?_⟩
    · unfold readStep
      rw [installed]
      simp only [bytes, called, map_some]
      rw [← reading, installed]
    · rw [socket, consumed, ← reading]
      change (connection.consumed ++ arrived) ++ connection.socket.drop arrived.length = stream
      rw [append_assoc, initial, split]
    · rw [consumed, acts, ← reading]
      exact whole
    · intro still
      rw [acts, ← reading]
      intro member
      rcases mem_append.mp member with before | new
      · exact live (by rw [installed]; simp) before
      · exact liveNext still new
    · intro shorter rest same some'
      rw [consumed, ← reading] at same
      change connection.consumed ++ arrived = shorter ++ rest at same
      have quiet : .connected ∉ connection.actions := live (by rw [installed]; simp)
      rcases append_eq_append_iff.mp same with
        ⟨between, longer, behind⟩ | ⟨between, longer, behind⟩
      · -- a cut inside what has just arrived
        rw [behind] at fed late fits
        obtain ⟨middle, early, after, front, _, joined⟩ := feeds_front fed
        refine ⟨middle, connection.actions ++ early, ?_, fun member => ?_⟩
        · rw [longer, feeds_append, said, bind_some, front]
          rfl
        · have new := (mem_append.mp member).resolve_left quiet
          have connected : .connected ∈ actions := joined ▸ mem_append_left after new
          obtain ⟨other, acts', again, never⟩ := connected_exact agrees fits some' fed late connected
          cases front.symm.trans again
          exact never new
      · by_cases whole : between = []
        · rw [whole, append_nil] at longer
          rw [← longer]
          exact ⟨awaiting, connection.actions, said, quiet⟩
        · exact least shorter between longer whole

def Ended (connection : Connection) : Prop :=
  connection.readCb = none ∨ connection.socket = []

/-- The actions are those that the proxy's bytes ask for, there is room in the buffer, and
a connection is made with no byte read behind the reply. -/
structure Faithful (settings : Settings) (stream : Bytes) (connection : Connection) : Prop where
  split : connection.consumed ++ connection.socket = stream
  performed : ∃ awaiting,
    feeds settings (.method []) connection.consumed = some (awaiting, connection.actions)
  roomy : ∀ readCb, connection.readCb = some readCb → 0 < room readCb connection.reader
  least : .connected ∈ connection.actions → ∀ shorter rest,
    connection.consumed = shorter ++ rest → rest ≠ [] →
      ∃ awaiting early, feeds settings (.method []) shorter = some (awaiting, early) ∧
        .connected ∉ early
  ended : Ended connection → ∃ awaiting,
    feeds settings (.method []) stream = some (awaiting, connection.actions)

theorem faithful_of_follows {stream : Bytes} (follows : Follows settings stream connection) :
    Faithful settings stream connection := by
  obtain ⟨split, ⟨awaiting, agrees, said⟩, live, least⟩ := follows
  refine ⟨split, ⟨awaiting, said⟩, ?_, fun _ => least, ?_⟩
  · intro readCb installed
    rw [installed] at agrees
    exact agrees_room agrees
  · rintro (past | empty)
    · have done : awaiting = .finished := by
        rw [past] at agrees
        cases awaiting with
        | method got => cases agrees.1
        | auth got => cases agrees.1
        | header got => cases agrees.1
        | chap left got => cases agrees.1
        | reply got => cases agrees.1
        | finished => rfl
      rw [done] at said
      refine ⟨.finished, ?_⟩
      rw [← split, feeds_append, said, bind_some, feeds_finished]
      simp only [map_some, append_nil]
    · rw [empty, append_nil] at split
      exact ⟨awaiting, split ▸ said⟩

theorem reads_faithful (settings : Settings) (stream : Bytes) {counts done : List Nat}
    (sparing : Admitted (readStep settings) (Sparing settings) (.start stream) counts)
    (reached : done <+: counts) :
    ∃ connection, run (readStep settings) (.start stream) done = some connection ∧
      Faithful settings stream connection := by
  obtain ⟨connection, ran, follows⟩ := PartialRun.reached (Follows settings stream)
    (fun _ _ follows admitted => readStep_follows follows admitted) (follows_start stream)
    sparing reached
  exact ⟨connection, ran, faithful_of_follows follows⟩

theorem s5_reads_alike (settings : Settings) (stream : Bytes) (first second : List Nat)
    (sparingFirst : Admitted (readStep settings) (Sparing settings) (.start stream) first)
    (sparingSecond : Admitted (readStep settings) (Sparing settings) (.start stream) second)
    (doneFirst doneSecond : List Nat) (reachedFirst : doneFirst <+: first)
    (reachedSecond : doneSecond <+: second) :
    ∃ one two, run (readStep settings) (.start stream) doneFirst = some one ∧
      run (readStep settings) (.start stream) doneSecond = some two ∧
      Faithful settings stream one ∧ Faithful settings stream two ∧
      (Ended one → Ended two → one.actions = two.actions) := by
  obtain ⟨one, ranOne, faithfulOne⟩ := reads_faithful settings stream sparingFirst reachedFirst
  obtain ⟨two, ranTwo, faithfulTwo⟩ := reads_faithful settings stream sparingSecond reachedSecond
  refine ⟨one, two, ranOne, ranTwo, faithfulOne, faithfulTwo, fun endedOne endedTwo => ?_⟩
  obtain ⟨_, saidOne⟩ := faithfulOne.ended endedOne
  obtain ⟨_, saidTwo⟩ := faithfulTwo.ended endedTwo
  exact (Prod.mk.inj (Option.some.inj (saidOne.symm.trans saidTwo))).2

def sampleSettings : Settings :=
  { host := [104]
    port := 80
    username := some [117]
    password := some [112]
    md5 := fun _ => List.replicate 16 0 }

/-- CHAP is selected, its status is good, and the connection is made; a byte follows. -/
def sampleStream : Bytes := [5, 3, 1, 1, 0, 1, 0, 5, 0, 0, 1, 127, 0, 0, 1, 0, 80, 65]

theorem sample_sparing {count : Nat} (few : count ≤ 1) :
    Sparing sampleSettings (.start sampleStream) count := by
  intro readCb awaiting actions installed said
  cases installed
  cases said
  have cut : count = 0 ∨ count = 1 := by omega
  have begun : feeds sampleSettings (.method []) [5] = some (.method [5], []) := rfl
  rcases cut with rfl | rfl
  · refine ⟨⟨_, begun⟩, ?_⟩
    rintro ⟨front, rest, next, acts, request, same, some', fed, sent⟩
    have bytes : front ++ rest = [5] := same.symm
    match front with
    | [] =>
      cases fed
      cases sent
    | byte :: front =>
      have lengths := congrArg List.length bytes
      have positive := length_pos_of_ne_nil some'
      rw [length_append, length_cons, length_singleton] at lengths
      omega
  · refine ⟨⟨(.header [], [.sends (chapRequest [117])]), rfl⟩, ?_⟩
    rintro ⟨front, rest, next, acts, request, same, some', fed, sent⟩
    have bytes : front ++ rest = [5, 3] := same.symm
    match front with
    | [] =>
      cases fed
      cases sent
    | [byte] =>
      obtain ⟨five, _⟩ := List.cons.inj bytes
      rw [five, begun] at fed
      cases fed
      cases sent
    | first :: second :: front =>
      have lengths := congrArg List.length bytes
      have positive := length_pos_of_ne_nil some'
      rw [length_append, length_cons, length_cons] at lengths
      change _ = 2 at lengths
      omega

theorem s5_reads_alike_witness :
    ∃ one two, run (readStep sampleSettings) (.start sampleStream) [1] = some one ∧
      run (readStep sampleSettings) (.start sampleStream) [0] = some two ∧
      Faithful sampleSettings sampleStream one ∧ Faithful sampleSettings sampleStream two ∧
      (Ended one → Ended two → one.actions = two.actions) :=
  s5_reads_alike sampleSettings sampleStream [1] [0]
    ⟨sample_sparing (Nat.le_refl 1), fun _ _ => trivial⟩
    ⟨sample_sparing (Nat.zero_le 1), fun _ _ => trivial⟩ [1] [0]
    (prefix_refl _) (prefix_refl _)

/-- A read that also brings the reply behind the status discards it. -/
theorem s5_reads_not_alike :
    ¬∀ (settings : Settings) (stream : Bytes) (first second : List Nat), ∃ one two,
      run (readStep settings) (.start stream) first = some one ∧
      run (readStep settings) (.start stream) second = some two ∧
      (Ended one → Ended two → one.actions = two.actions) := by
  intro alike
  obtain ⟨one, two, ranOne, ranTwo, same⟩ :=
    alike sampleSettings sampleStream [1, 4, 4, 2, 1] [1, 258]
  have first : (run (readStep sampleSettings) (.start sampleStream) [1, 4, 4, 2, 1]).map
      (fun connection => (connection.readCb, connection.socket,
        connection.actions.contains .connected)) = some (none, [65], true) := by
    decide +kernel
  have second : (run (readStep sampleSettings) (.start sampleStream) [1, 258]).map
      (fun connection => (connection.readCb, connection.socket,
        connection.actions.contains .connected)) = some (some .s5CanreadAgain, [], false) := by
    decide +kernel
  rw [ranOne, map_some] at first
  rw [ranTwo, map_some] at second
  obtain ⟨endedOne, rest⟩ := Prod.mk.inj (Option.some.inj first)
  obtain ⟨_, madeOne⟩ := Prod.mk.inj rest
  obtain ⟨_, rest⟩ := Prod.mk.inj (Option.some.inj second)
  obtain ⟨endedTwo, madeTwo⟩ := Prod.mk.inj rest
  rw [same (Or.inl endedOne) (Or.inr endedTwo), madeTwo] at madeOne
  cases madeOne

end Purple.Proxy
