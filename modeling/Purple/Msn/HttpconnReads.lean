/-
The bodies of a stream of HTTP responses, however it is cut into reads.

A response is an optional `100 Continue` block, a header block and a body.  Between
two reads the buffer holds what has arrived of the current response, without the
`100 Continue` block if a read ended right behind it.
-/

import Purple.Msn.Httpconn
import Purple.Msn.ServconnReads

namespace Purple.Msn

open List Memory CString Framing

structure HeaderBlock (block : Bytes) : Prop where
  noNul : 0 ∉ block
  ends : strstr blankLine block = some (block.length - 4)

structure HttpResponse where
  interim : Option Bytes
  header : Bytes
  body : Bytes

def HttpResponse.bytes (response : HttpResponse) : Bytes :=
  response.interim.getD [] ++ (response.header ++ response.body)

structure HttpResponse.WellFormed (response : HttpResponse) : Prop where
  header : HeaderBlock response.header
  interim : ∀ block, response.interim = some block → HeaderBlock block

/-- The status is one of those that are accepted, a `100 Continue` is one of HTTP/1.1,
the first occurrence of the field's name gives the length of the body, and the session,
if there is one, has no empty element. -/
structure Understood (response : HttpResponse) : Prop where
  status : http11Ok <+: response.header ∨ http10Ok <+: response.header
  interim : ∀ block, response.interim = some block → http11Continue <+: block
  length : ∃ text, fieldText contentLengthName response.header = some (some text) ∧
    (UInt64.ofInt (atoi text)).toNat = response.body.length
  session : fieldText messengerName response.header = none ∨
    ∃ text fields, fieldText messengerName response.header = some (some text) ∧
      sessionFields text = some fields

/-- Every body with bytes in it was handed on, no error was reported, and no
unprocessed byte was replaced. -/
structure HandedOn (responses : List HttpResponse) (received : Bytes) (conn : MsnHttpConn) :
    Prop where
  bodies : conn.handed.map Handed.body =
    ((complete HttpResponse.bytes responses received).map HttpResponse.body).filter (· ≠ [])
  alive : conn.failed = false
  kept : ∀ handed ∈ conn.handed, handed.replaced = 0

variable {block buf : Bytes} {response : HttpResponse} {handlers : Handlers}
  {responses : List HttpResponse}

theorem HeaderBlock.four (isBlock : HeaderBlock block) : block.length - 4 + 4 = block.length :=
  Nat.sub_add_cancel (Nat.le_of_add_left_le (strstr_bound isBlock.ends))

theorem HeaderBlock.part (isBlock : HeaderBlock block) (front : buf <+: block)
    (short : buf.length < block.length) : strstr blankLine (cString buf) = none := by
  have taken := strstr_take_iff isBlock.ends buf.length
  have missing : ¬block.length - 4 + blankLine.length ≤ buf.length := by
    change ¬block.length - 4 + 4 ≤ buf.length
    rw [isBlock.four]
    exact Nat.not_le_of_lt short
  rw [← prefix_iff_eq_take.mp front, if_neg missing] at taken
  exact strstr_none_of_front (cString_initial buf) taken

theorem HeaderBlock.whole (isBlock : HeaderBlock block) (behind : Bytes) :
    strstr blankLine (cString (block ++ behind)) = some (block.length - 4) := by
  rw [cString_line isBlock.noNul]
  exact strstr_append isBlock.ends _

/-! ### Parsing -/

theorem parseHeader_reads (wellFormed : response.WellFormed) (understood : Understood response)
    (session : HttpSession) (front : buf <+: response.header ++ response.body) :
    (buf.length < response.header.length + response.body.length →
      parseHeader session buf = some .wait) ∧
    (buf = response.header ++ response.body →
      ∃ after, parseHeader session buf = some (.done response.body after)) := by
  obtain ⟨text, field, length⟩ := understood.length
  by_cases partial' : buf.length < response.header.length
  · have header : buf <+: response.header :=
      prefix_of_prefix_length_le front (prefix_append _ _) (Nat.le_of_lt partial')
    constructor
    · intro _short
      rw [parseHeader, wellFormed.header.part header partial']
    · intro whole
      rw [whole, length_append] at partial'
      omega
  · have header : response.header <+: buf :=
      prefix_of_prefix_length_le (prefix_append _ _) front (Nat.le_of_not_lt partial')
    obtain ⟨body, same⟩ := header
    have four := wellFormed.header.four
    have parses : parseHeader session buf =
        if response.body.length ≠ body.length then some .wait
        else parseSession session response.header body := by
      rw [parseHeader, ← same, wellFormed.header.whole body]
      simp only [four, take_left, drop_left, field, length]
    constructor
    · intro short
      rw [← same, length_append] at short
      rw [parses, if_pos (by omega)]
    · intro whole
      have isBody : body = response.body := append_cancel_left (same.trans whole)
      rw [parses, isBody, if_neg (not_not.mpr rfl), parseSession]
      cases understood.session with
      | inl absent =>
        rw [absent]
        exact ⟨_, rfl⟩
      | inr present =>
        obtain ⟨text, fields, found, parsed⟩ := present
        rw [found]
        simp only [parsed, Option.map_some]
        exact ⟨_, rfl⟩

def Recognised (buf : Bytes) : Prop :=
  http11Ok <+: buf ∨ http11Continue <+: buf ∨ http10Ok <+: buf ∨ http10Continue <+: buf

theorem parseData_recognised (recognised : Recognised buf) (session : HttpSession) :
    msnHttpconnParseData session buf =
      if http11Continue <+: buf then parseContinue session buf else parseHeader session buf := by
  rw [msnHttpconnParseData, if_neg]
  intro ⟨notOk, notContinue, notOld, notOldContinue⟩
  exact recognised.elim notOk (·.elim notContinue (·.elim notOld notOldContinue))

theorem parseData_plain (understood : Understood response) (session : HttpSession)
    (front : buf <+: response.header ++ response.body) (recognised : Recognised buf) :
    msnHttpconnParseData session buf = parseHeader session buf := by
  rw [parseData_recognised recognised, if_neg]
  intro continued
  have whole := continued.trans front
  cases understood.status with
  | inl ok =>
    have starts := ok.trans (prefix_append response.header response.body)
    exact absurd ( prefix_or_prefix_of_prefix starts whole) (by decide)
  | inr old =>
    have starts := old.trans (prefix_append response.header response.body)
    exact absurd ( prefix_or_prefix_of_prefix starts whole) (by decide)

theorem header_starts (understood : Understood response) {part : Bytes} (nonempty : part ≠ [])
    (front : part <+: response.header ++ response.body) : part.headD 0 = 72 := by
  have first : ∀ line : Bytes, line.head? = some 72 → line <+: response.header →
      part.headD 0 = 72 := by
    intro line starts initial
    have whole := initial.trans (prefix_append response.header response.body)
    cases part with
    | nil => exact absurd rfl nonempty
    | cons byte part =>
      cases line with
      | nil => cases starts
      | cons head line =>
        have sameHead : head = 72 := Option.some.inj starts
        obtain ⟨more, same⟩ := whole
        obtain ⟨others, sameToo⟩ := front
        have heads := congrArg List.head? (sameToo.trans same.symm)
        exact (Option.some.inj heads).trans sameHead
  cases understood.status with
  | inl ok => exact first http11Ok rfl ok
  | inr old => exact first http10Ok rfl old

theorem parseData_interim (wellFormed : response.WellFormed) (understood : Understood response)
    (session : HttpSession) (interim : response.interim = some block)
    (front : buf <+: block ++ (response.header ++ response.body)) (recognised : Recognised buf) :
    (buf.length < block.length → msnHttpconnParseData session buf = some .wait) ∧
    (buf = block → msnHttpconnParseData session buf = some (.done [] session)) ∧
    (∀ part, part ≠ [] → buf = block ++ part →
      msnHttpconnParseData session buf = parseHeader session part) := by
  have isBlock := wellFormed.interim block interim
  have starts : http11Continue <+: block ++ (response.header ++ response.body) :=
    (understood.interim block interim).trans (prefix_append _ _)
  have continued : http11Continue <+: buf := by
    rcases recognised with ok | here | old | oldContinue
    · exact absurd ( prefix_or_prefix_of_prefix (ok.trans front) starts) (by decide)
    · exact here
    · exact absurd ( prefix_or_prefix_of_prefix (old.trans front) starts) (by decide)
    · exact absurd ( prefix_or_prefix_of_prefix (oldContinue.trans front) starts) (by decide)
  rw [parseData_recognised recognised, if_pos continued]
  refine ⟨fun short => ?_, fun alone => ?_, fun part nonempty same => ?_⟩
  · have start : buf <+: block :=
      prefix_of_prefix_length_le front (prefix_append _ _) (Nat.le_of_lt short)
    rw [parseContinue, isBlock.part start short]
  · have found := isBlock.whole []
    rw [append_nil] at found
    rw [alone, parseContinue, found]
    simp only [isBlock.four, drop_length, headD_nil, if_true]
  · rw [same] at front ⊢
    have partFront := (prefix_append_right_inj _).mp front
    have head := header_starts understood nonempty partFront
    rw [parseContinue, isBlock.whole part]
    simp only [isBlock.four, drop_left, head]
    exact if_neg (by decide)

/-! ### One read -/

/-- The buffer holds what has arrived of a response, without a `100 Continue` block that
was consumed alone. -/
def Buffers (response : HttpResponse) (pending buf : Bytes) : Prop :=
  buf = pending ∨ ∃ block, response.interim = some block ∧ pending = block ++ buf

theorem parse_behind_interim (wellFormed : response.WellFormed) (understood : Understood response)
    (session : HttpSession) (front : buf <+: response.header ++ response.body) :
    (buf = response.header ++ response.body →
      ∃ after, parseHeader session buf = some (.done response.body after)) ∧
    (buf ≠ response.header ++ response.body → parseHeader session buf = some .wait) := by
  obtain ⟨waits, takes⟩ := parseHeader_reads wellFormed understood session front
  refine ⟨takes, fun part => waits ?_⟩
  rw [← length_append]
  exact Nat.lt_of_le_of_ne front.length_le fun same => part (front.eq_of_length same)

/-- A read that stays within the response completes it, waits, or consumes its
`100 Continue` block alone. -/
theorem parse_step (wellFormed : response.WellFormed) (understood : Understood response)
    (session : HttpSession) {pending data : Bytes} (buffers : Buffers response pending buf)
    (front : pending ++ data <+: response.bytes) (recognised : Recognised (buf ++ data)) :
    (pending ++ data = response.bytes →
      ∃ after, msnHttpconnParseData session (buf ++ data) = some (.done response.body after)) ∧
    (pending ++ data ≠ response.bytes →
      msnHttpconnParseData session (buf ++ data) = some .wait ∨
        msnHttpconnParseData session (buf ++ data) = some (.done [] session) ∧
          response.interim = some (pending ++ data)) := by
  cases buffers with
  | inl same =>
    subst same
    cases interim : response.interim with
    | none =>
      have whole : response.bytes = response.header ++ response.body := by
        rw [HttpResponse.bytes, interim]
        rfl
      rw [whole] at front ⊢
      obtain ⟨takes, waits⟩ := parse_behind_interim wellFormed understood session front
      rw [parseData_plain understood session front recognised]
      exact ⟨takes, fun part => .inl (waits part)⟩
    | some block =>
      have whole : response.bytes = block ++ (response.header ++ response.body) := by
        rw [HttpResponse.bytes, interim]
        rfl
      rw [whole] at front ⊢
      obtain ⟨awaited, alone, behind⟩ :=
        parseData_interim wellFormed understood session interim front recognised
      have rest : response.header ++ response.body ≠ [] := by
        intro empty
        have four := wellFormed.header.four
        rw [(append_eq_nil_iff.mp empty).1, length_nil] at four
        exact absurd four (by decide)
      by_cases short : (buf ++ data).length < block.length
      · refine ⟨fun same => ?_, fun _ => .inl (awaited short)⟩
        rw [same, length_append] at short
        omega
      · have first : block <+: buf ++ data :=
          prefix_of_prefix_length_le (prefix_append _ _) front
            (Nat.le_of_not_lt short)
        obtain ⟨part, same⟩ := first
        rw [← same] at front alone behind ⊢
        have partFront := (prefix_append_right_inj _).mp front
        obtain ⟨takes, waits⟩ := parse_behind_interim wellFormed understood session partFront
        by_cases empty : part = []
        · rw [empty, append_nil] at alone ⊢
          refine ⟨fun all => absurd ?_ rest, fun _ => .inr ⟨alone rfl, rfl⟩⟩
          exact (@append_right_eq_self _ block _).mp all.symm
        · rw [behind part empty rfl]
          exact ⟨fun all => takes (append_cancel_left all),
            fun part' => .inl (waits fun all => part' (congrArg _ all))⟩
  | inr consumed =>
    obtain ⟨block, interim, split⟩ := consumed
    have whole : response.bytes = block ++ (response.header ++ response.body) := by
      rw [HttpResponse.bytes, interim]
      rfl
    rw [whole, split, append_assoc] at front ⊢
    have behind := (prefix_append_right_inj _).mp front
    obtain ⟨takes, waits⟩ := parse_behind_interim wellFormed understood session behind
    rw [parseData_plain understood session behind recognised]
    exact ⟨fun all => takes (append_cancel_left all),
      fun part => .inl (waits fun all => part (congrArg _ all))⟩

theorem HttpResponse.WellFormed.positive (wellFormed : response.WellFormed) :
    0 < response.bytes.length := by
  have four := wellFormed.header.four
  rw [HttpResponse.bytes, length_append, length_append]
  omega

def current (responses : List HttpResponse) (received : Bytes) : Option HttpResponse :=
  responses[(complete HttpResponse.bytes responses received).length]?

/-- A read before which nothing goes wrong: it fits the `int`, the buffer then starts with
a whole status line, the read does not go beyond the current response, and where it
completes one with a body, no byte waits in the server connection, which can process the
body. -/
structure Admissible (handlers : Handlers) (responses : List HttpResponse) (received : Bytes)
    (conn : MsnHttpConn) (buf : ReadBuf) : Prop where
  fits : conn.rxBuf.length + buf.data.length ≤ intMax
  recognised : Recognised (conn.rxBuf ++ buf.data)
  within : ∀ response, current responses received = some response →
    (unconsumed HttpResponse.bytes responses received ++ buf.data).length ≤ response.bytes.length
  finished : ∀ response, current responses received = some response → response.body ≠ [] →
    (unconsumed HttpResponse.bytes responses received ++ buf.data).length =
      response.bytes.length →
    conn.servconn.rxLen = 0 ∧
      ∃ after, msnServconnProcessData handlers (withBody conn.servconn response.body) = some after

structure Kept (responses : List HttpResponse) (received : Bytes) (conn : MsnHttpConn) : Prop where
  handedOn : HandedOn responses received conn
  buffers : ∀ response, current responses received = some response →
    Buffers response (unconsumed HttpResponse.bytes responses received) conn.rxBuf

theorem httpReadCb_parsed {conn : MsnHttpConn} {buf : ReadBuf} (alive : conn.failed = false)
    (fits : conn.rxBuf.length + buf.data.length ≤ intMax) {result : ParseResult}
    (parsed : msnHttpconnParseData conn.session (conn.rxBuf ++ buf.data) = some result) :
    httpReadCb handlers conn buf =
      takeResult handlers { conn with rxBuf := conn.rxBuf ++ buf.data } result := by
  rw [httpReadCb, if_neg (ne_true_of_eq_false alive), if_neg (Nat.not_lt_of_le fits), parsed,
    Option.bind_some]

theorem takeResult_done (received : MsnHttpConn) (body : Bytes) (session : HttpSession)
    (processed : body ≠ [] → ∃ after,
      msnServconnProcessData handlers (withBody received.servconn body) = some after) :
    ∃ next, takeResult handlers received (.done body session) = some next ∧ next.rxBuf = [] ∧
      next.failed = received.failed ∧
      next.handed = received.handed ++
        if body = [] then [] else [{ body, replaced := received.servconn.rxLen }] := by
  rw [takeResult]
  by_cases empty : body = []
  · rw [if_pos empty, if_pos empty]
    exact ⟨_, rfl, rfl, rfl, (append_nil _).symm⟩
  · obtain ⟨after, isAfter⟩ := processed empty
    rw [if_neg empty, if_neg empty, isAfter]
    exact ⟨_, rfl, rfl, rfl, rfl⟩

theorem current_later {later : List HttpResponse} {received : Bytes}
    (split : responses = complete HttpResponse.bytes responses received ++ later) :
    current responses received = later.head? := by
  have place := congrArg
    (fun whole => whole[(complete HttpResponse.bytes responses received).length]?) split
  refine place.trans ?_
  rw [getElem?_append_right (Nat.le_refl _), Nat.sub_self, head?_eq_getElem?]

theorem settled {responses others : List HttpResponse} {response : HttpResponse}
    {received data : Bytes}
    (split : responses = complete HttpResponse.bytes responses received ++ response :: others)
    (bytes : received = stream HttpResponse.bytes
      (complete HttpResponse.bytes responses received) ++
        unconsumed HttpResponse.bytes responses received) :
    complete HttpResponse.bytes responses (received ++ data) =
        complete HttpResponse.bytes responses received ++
          complete HttpResponse.bytes (response :: others)
            (unconsumed HttpResponse.bytes responses received ++ data) ∧
      unconsumed HttpResponse.bytes responses (received ++ data) =
        unconsumed HttpResponse.bytes (response :: others)
          (unconsumed HttpResponse.bytes responses received ++ data) := by
  have completes := @complete_front _ _ HttpResponse.bytes
    (complete HttpResponse.bytes responses received) (response :: others)
    (unconsumed HttpResponse.bytes responses received ++ data)
  have leaves := @unconsumed_front _ _ HttpResponse.bytes
    (complete HttpResponse.bytes responses received) (response :: others)
    (unconsumed HttpResponse.bytes responses received ++ data)
  rw [← append_assoc, ← bytes, ← split] at completes leaves
  exact ⟨completes, leaves⟩

theorem httpReadCb_kept {received : Bytes} {conn : MsnHttpConn} {buf : ReadBuf}
    (wellFormed : ∀ response ∈ responses, response.WellFormed)
    (understood : ∀ response ∈ responses, Understood response)
    (kept : Kept responses received conn)
    (arrived : received ++ buf.data <+: stream HttpResponse.bytes responses)
    (admissible : Admissible handlers responses received conn buf) :
    ∃ next, httpReadCb handlers conn buf = some next ∧
      Kept responses (received ++ buf.data) next := by
  obtain ⟨later, split, bytes, start, incomplete⟩ :=
    arrived_split ((prefix_append received buf.data).trans arrived)
  obtain ⟨bodies, alive, noneReplaced⟩ := kept.handedOn
  have place := current_later split
  have front : unconsumed HttpResponse.bytes responses received ++ buf.data <+:
      stream HttpResponse.bytes later := by
    have whole := arrived
    rw [split, stream_append] at whole
    conv at whole => lhs; rw [bytes]
    rw [append_assoc] at whole
    exact (prefix_append_right_inj _).mp whole
  cases later with
  | nil =>
    have positive := buf.positive
    rw [(append_eq_nil_iff.mp (prefix_nil.mp front)).2] at positive
    exact absurd positive (Nat.lt_irrefl 0)
  | cons response others =>
    have member : response ∈ responses := by
      rw [split]
      exact mem_append_right _ mem_cons_self
    have within := admissible.within response place
    have inside : unconsumed HttpResponse.bytes responses received ++ buf.data <+:
        response.bytes := by
      rw [stream_cons] at front
      exact prefix_of_prefix_length_le front (prefix_append _ _) within
    obtain ⟨completes, leaves⟩ := @settled _ _ _ _ buf.data split bytes
    obtain ⟨takes, waits⟩ := parse_step (wellFormed response member)
      (understood response member) conn.session (kept.buffers response place) inside
      admissible.recognised
    by_cases all : unconsumed HttpResponse.bytes responses received ++ buf.data = response.bytes
    · obtain ⟨session, parsed⟩ := takes all
      have nothing : complete HttpResponse.bytes others [] = [] := by
        refine complete_nil fun other isOther => (wellFormed other ?_).positive
        rw [split]
        exact mem_append_right _ (mem_cons_of_mem _ isOther)
      rw [all, complete, if_pos (Nat.le_refl _), drop_length, nothing] at completes
      rw [all, unconsumed, if_pos (Nat.le_refl _), drop_length, unconsumed_nil] at leaves
      obtain ⟨next, taken, emptied, sameFailed, handed⟩ := takeResult_done
        { conn with rxBuf := conn.rxBuf ++ buf.data } response.body session fun nonempty =>
          (admissible.finished response place nonempty (congrArg List.length all)).2
      rw [httpReadCb_parsed alive admissible.fits parsed]
      refine ⟨next, taken, ⟨?_, sameFailed.trans alive, fun entry isHanded => ?_⟩,
        fun _ _ => .inl (emptied.trans leaves.symm)⟩
      · rw [completes, handed, map_append, map_append, filter_append, ← bodies]
        by_cases empty : response.body = []
        · rw [if_pos empty, map_singleton, empty]
          rfl
        · rw [if_neg empty, map_singleton, map_singleton,
            filter_singleton, decide_eq_true empty]
          rfl
      · rw [handed] at isHanded
        cases mem_append.mp isHanded with
        | inl early => exact noneReplaced entry early
        | inr newest =>
          by_cases empty : response.body = []
          · rw [if_pos empty] at newest
            exact absurd newest not_mem_nil
          · rw [if_neg empty] at newest
            rw [mem_singleton.mp newest]
            exact (admissible.finished response place empty (congrArg List.length all)).1
    · have short : ¬response.bytes.length ≤
          (unconsumed HttpResponse.bytes responses received ++ buf.data).length := fun long =>
        all (inside.eq_of_length_le long)
      rw [complete, if_neg short, append_nil] at completes
      rw [unconsumed, if_neg short] at leaves
      have still : current responses (received ++ buf.data) = some response := by
        rw [current, completes]
        exact place
      have unchanged : HandedOn responses (received ++ buf.data) conn :=
        ⟨by rw [completes]; exact bodies, alive, noneReplaced⟩
      cases waits all with
      | inl parsed =>
        rw [httpReadCb_parsed alive admissible.fits parsed]
        refine ⟨_, rfl, ⟨unchanged.bodies, alive, noneReplaced⟩, fun other isCurrent => ?_⟩
        rw [still] at isCurrent
        cases isCurrent
        rw [leaves]
        cases kept.buffers response place with
        | inl same => exact .inl (congrArg (· ++ buf.data) same)
        | inr consumed =>
          obtain ⟨block, interim, same⟩ := consumed
          refine .inr ⟨block, interim, ?_⟩
          rw [same, append_assoc]
      | inr alone =>
        obtain ⟨parsed, interim⟩ := alone
        rw [httpReadCb_parsed alive admissible.fits parsed]
        refine ⟨_, rfl, ⟨unchanged.bodies, alive, noneReplaced⟩, fun other isCurrent => ?_⟩
        rw [still] at isCurrent
        cases isCurrent
        exact .inr ⟨_, interim, by rw [leaves]; exact (append_nil _).symm⟩

/-! ### Runs -/

/-- Every read is admissible in the state that the reads before it lead to. -/
def Careful (handlers : Handlers) (responses : List HttpResponse) (reads : List ReadBuf) : Prop :=
  ∀ done buf, done ++ [buf] <+: reads → ∀ conn,
    PartialRun.run (httpReadCb handlers) MsnHttpConn.start done = some conn →
    Admissible handlers responses (joined done) conn buf

theorem start_kept (wellFormed : ∀ response ∈ responses, response.WellFormed) :
    Kept responses [] MsnHttpConn.start := by
  have nothing : complete HttpResponse.bytes responses [] = [] :=
    complete_nil fun response member => (wellFormed response member).positive
  refine ⟨⟨?_, rfl, fun _ absent => absurd absent not_mem_nil⟩, fun _ _ => .inl ?_⟩
  · rw [nothing]
    rfl
  · exact (unconsumed_nil responses).symm

/-- For responses that are understood, in every run whose reads are careful: after every
read the bodies so far were handed on in order, without an error, and nothing that waited
was replaced. -/
theorem httpconn_handsOn (handlers : Handlers) (responses : List HttpResponse)
    (wellFormed : ∀ response ∈ responses, response.WellFormed)
    (understood : ∀ response ∈ responses, Understood response) (reads : List ReadBuf)
    (arrived : joined reads <+: stream HttpResponse.bytes responses)
    (careful : Careful handlers responses reads) (done : List ReadBuf) (reached : done <+: reads) :
    ∃ last, PartialRun.run (httpReadCb handlers) MsnHttpConn.start done = some last ∧
      HandedOn responses (joined done) last := by
  suffices runs : ∃ last, PartialRun.run (httpReadCb handlers) MsnHttpConn.start done = some last ∧
      Kept responses (joined done) last by
    obtain ⟨last, ran, kept⟩ := runs
    exact ⟨last, ran, kept.handedOn⟩
  induction done using List.reverseRecOn with
  | nil => exact ⟨_, rfl, start_kept wellFormed⟩
  | append_singleton done buf ih =>
    obtain ⟨middle, ran, kept⟩ := ih ((prefix_append done [buf]).trans reached)
    have single : joined [buf] = buf.data := append_nil _
    have front : joined done ++ buf.data <+: stream HttpResponse.bytes responses := by
      obtain ⟨later, rest⟩ := reached
      rw [← rest, joined_append, joined_append, single] at arrived
      exact (prefix_append _ _).trans arrived
    obtain ⟨next, read, after⟩ := httpReadCb_kept wellFormed understood kept front
      (careful done buf reached middle ran)
    refine ⟨next, ?_, ?_⟩
    · rw [PartialRun.run_append, ran, Option.bind_some, PartialRun.run_cons, read]
      rfl
    · rw [joined_append, single]
      exact after

/-- A response behind a `100 Continue` block. -/
def outResponse : HttpResponse where
  interim := some (http11Continue ++ crlf)
  header := http11Ok ++ contentLengthName ++ ascii "5" ++ blankLine
  body := ascii "OUT" ++ crlf

theorem outResponse_wellFormed : outResponse.WellFormed where
  header := ⟨by decide, by decide⟩
  interim := by
    intro block same
    cases same
    exact ⟨by decide, by decide⟩

theorem outResponse_understood : Understood outResponse where
  status := .inl ⟨contentLengthName ++ ascii "5" ++ blankLine, by decide⟩
  interim := by
    intro block same
    cases same
    exact prefix_append _ _
  length := ⟨ascii "5", by decide, by decide⟩
  session := .inl (by decide)

/-- The first read ends with the `100 Continue` block. -/
def outReads : List ReadBuf :=
  [⟨http11Continue ++ crlf, by decide, by decide⟩,
    ⟨outResponse.header ++ outResponse.body, by decide, by decide⟩]

theorem outReads_careful : Careful (fun _ _ => 0) [outResponse] outReads := by
  intro done buf reached conn ran
  cases done with
  | nil =>
    -- the block alone
    cases ran
    obtain ⟨isFirst, _rest⟩ := cons_prefix_cons.mp reached
    subst isFirst
    refine ⟨by decide, .inr (.inl (prefix_append _ _)), ?_, ?_⟩
    · intro response same
      cases same
      decide
    · intro response same _nonempty length
      cases same
      exact absurd length (by decide)
  | cons first done =>
    obtain ⟨isFirst, rest⟩ := cons_prefix_cons.mp reached
    subst isFirst
    cases done with
    | nil =>
      -- the header and the body, in the state that the block alone leaves
      cases ran
      obtain ⟨isSecond, _rest⟩ := cons_prefix_cons.mp rest
      subst isSecond
      refine ⟨by decide, .inl ?_, ?_, ?_⟩
      · exact ⟨contentLengthName ++ ascii "5" ++ blankLine ++ outResponse.body, by decide⟩
      · intro response same
        cases same
        decide
      · intro response same _nonempty _length
        cases same
        exact ⟨rfl, _, rfl⟩
    | cons second done =>
      have none := prefix_nil.mp (cons_prefix_cons.mp rest).2
      exact absurd none (append_ne_nil_of_right_ne_nil done (cons_ne_nil buf []))

theorem httpconn_handsOn_out :
    ∃ last, PartialRun.run (httpReadCb fun _ _ => 0) MsnHttpConn.start outReads = some last ∧
      HandedOn [outResponse] (joined outReads) last := by
  refine httpconn_handsOn _ [outResponse] ?_ ?_ outReads ?_ ?_ outReads (prefix_refl _)
  · exact fun response member => mem_singleton.mp member ▸ outResponse_wellFormed
  · exact fun response member => mem_singleton.mp member ▸ outResponse_understood
  · exact prefix_iff_eq_take.mpr (by decide)
  · exact outReads_careful

/-- The status line arrives in two reads. -/
theorem cutStatus_not_handedOn :
    ¬∀ (handlers : Handlers) (responses : List HttpResponse),
      (∀ response ∈ responses, response.WellFormed) → ∀ reads,
      joined reads <+: stream HttpResponse.bytes responses → ∀ done, done <+: reads →
        ∃ last, PartialRun.run (httpReadCb handlers) MsnHttpConn.start done = some last ∧
          HandedOn responses (joined done) last := by
  intro handsOn
  obtain ⟨last, ran, handedOn⟩ := handsOn (fun _ _ => 0) [outResponse]
    (fun response member => mem_singleton.mp member ▸ outResponse_wellFormed)
    [⟨ascii "HTTP/", by decide, by decide⟩] (prefix_iff_eq_take.mpr (by decide)) _
    (prefix_refl _)
  have failed : (PartialRun.run (httpReadCb fun _ _ => 0) MsnHttpConn.start
      [⟨ascii "HTTP/", by decide, by decide⟩]).map MsnHttpConn.failed = some true := by
    decide
  rw [ran] at failed
  exact absurd (handedOn.alive.symm.trans (Option.some.inj failed)) Bool.noConfusion

end Purple.Msn
