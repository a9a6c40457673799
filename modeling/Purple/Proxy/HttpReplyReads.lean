/-
What is read of the replies to CONNECT requests.

The buffer is kept to in every run.  What is skipped is bounded, and a tunnel begins right
behind the header block, where the reply does not say less than was read.
-/

import Mathlib.Algebra.GroupWithZero.Nat
import Purple.Proxy.HttpReply
import Purple.Proxy.Socks5Reads

namespace Purple.Proxy

open List Option CString Memory

def Received.bytes : Received → Bytes
  | .data bytes => bytes
  | _ => []

def blankLine : Bytes := ascii "\r\n\r\n"

def blankAt (received : Bytes) : Option Nat := strstr blankLine (cString received)

/-- A reply is parsed when its header block has ended, or when the buffer is full. -/
def Complete (received : Bytes) : Prop := (blankAt received).isSome ∨ received.length = 8191

def headerText (received : Bytes) : Bytes :=
  match blankAt received with
  | some offset => (cString received).take offset
  | none => cString received

def bodyBuffered (received : Bytes) : Nat :=
  match blankAt received with
  | some offset => received.length - (offset + 4)
  | none => 0

/-- The bytes that are subtracted from the length of the contents: without a blank line
    those that earlier reads have brought. -/
def bodyCounted (taken received : Bytes) : Nat :=
  match blankAt received with
  | some offset => received.length - (offset + 4)
  | none => taken.length

def Accepts (received : Bytes) : Prop := parseStatus (headerText received) = (false, 200)

def arrivalReads : Arrival → Nat
  | .bytes _ more => more.length + 1
  | .again => 1
  | .failed _ => 1

def readsLeft (socket : Socket) : Nat := (socket.map arrivalReads).sum

def Fails (socket : Socket) : Prop := ∃ errno, Arrival.failed errno ∈ socket

/-- The length covers what is subtracted from it, and no read but the last one of the rest
    meets the end of the stream. -/
def LengthCovers (taken received : Bytes) (socket : Socket) (length : Nat) : Prop :=
  bodyCounted taken received ≤ length ∧
    (length - bodyCounted taken received ≤ readsLeft socket + 1 ∨ Fails socket)

def EndsAtBlank (received : Bytes) : Prop :=
  ∀ offset, strstr blankLine received = some offset → received.length ≤ offset + 4

/-- What a reply must be like, of which `taken` was read before. -/
structure Answerable (taken received : Bytes) (socket : Socket) : Prop where
  covers : ∀ length, contentLength (headerText received) = some (some length) →
    LengthCovers taken received socket length
  ends : Accepts received → EndsAtBlank received
  empty : Accepts received → ∀ length, contentLength (headerText received) = some (some length) →
    length = bodyCounted taken received

def nextRead (taken : Bytes) (socket : Socket) : Received × Socket := read (8191 - taken.length) socket

def Foreseen (taken : Bytes) (socket : Socket) : Prop :=
  let received := taken ++ (nextRead taken socket).1.bytes
  Complete received → Answerable taken received (nextRead taken socket).2

/-- No more is skipped than the rest of the contents, and nothing behind the end of the
    stream. -/
structure SkipsWithin (received : Bytes) (call : HttpCall) : Prop where
  bounded : ∀ length, contentLength (headerText received) = some (some length) →
    call.skipped.length ≤ length - bodyBuffered received
  unknown : (∀ length, contentLength (headerText received) ≠ some (some length)) → call.skipped = []
  ended : Received.closed ∉ call.skipped.dropLast

def TunnelIntact (received : Bytes) (call : HttpCall) : Prop :=
  call.outcome = .connected → EndsAtBlank (received ++ call.skipped.flatMap Received.bytes)

/-- The calls since the connection was made; `taken` was read since the last request. -/
inductive HttpRun (info : ProxyInfo) (answer : NtlmAnswer) (sent : Socket) :
    Reader → Socket → Bytes → Prop
  | begins : HttpRun info answer sent .empty sent []
  | waits {reader next : Reader} {socket : Socket} {taken : Bytes} {call : HttpCall}
      (before : HttpRun info answer sent reader socket taken)
      (called : httpCanread info answer reader socket = some call)
      (waiting : call.outcome = .waits next) :
      HttpRun info answer sent next call.socket (taken ++ call.got)
  | retries {reader : Reader} {socket : Socket} {taken request : Bytes} {call : HttpCall}
      (before : HttpRun info answer sent reader socket taken)
      (called : httpCanread info answer reader socket = some call)
      (retrying : call.outcome = .retries request) :
      HttpRun info answer sent .empty call.socket []

/-! ### Reads -/

variable {socket : Socket} {reader : Reader} {info : ProxyInfo} {answer : NtlmAnswer}

theorem gsizeSub_of_le {left right : Nat} (covered : right ≤ left) (small : left < 2 ^ 64) :
    gsizeSub left right = left - right := by
  unfold gsizeSub
  omega

theorem read_length {limit : Nat} {rest : Socket} {got : Bytes}
    (done : read limit socket = (.data got, rest)) : got.length ≤ limit := by
  cases socket with
  | nil => cases done
  | cons arrival socket =>
    cases arrival with
    | bytes first more =>
      cases done
      rw [length_take]
      exact Nat.min_le_left _ _
    | again => cases done
    | failed errno => cases done

theorem skip_length (count : Nat) (socket : Socket) : (skip count socket).1.length ≤ count := by
  induction count generalizing socket with
  | zero => exact Nat.le_refl 0
  | succ count inductionHypothesis =>
    rw [skip]
    split
    · exact Nat.succ_le_succ (Nat.zero_le count)
    · exact Nat.succ_le_succ (inductionHypothesis _)

theorem read_one_left (arrival : Arrival) (socket : Socket) :
    (∃ errno, arrival = .failed errno) ∨
      ((read 1 (arrival :: socket)).1 ≠ .closed ∧
        (∀ errno, (read 1 (arrival :: socket)).1 ≠ .failed errno) ∧
        readsLeft (arrival :: socket) = readsLeft (read 1 (arrival :: socket)).2 + 1 ∧
        (Fails (arrival :: socket) → Fails (read 1 (arrival :: socket)).2)) := by
  cases arrival with
  | failed errno => exact Or.inl ⟨errno, rfl⟩
  | again =>
    right
    refine ⟨by rintro ⟨⟩, by rintro _ ⟨⟩, ?_, ?_⟩
    · change 1 + readsLeft socket = readsLeft socket + 1
      omega
    · intro fails
      obtain ⟨errno, member⟩ := fails
      cases member with
      | tail _ member => exact ⟨errno, member⟩
  | bytes first more =>
    right
    refine ⟨by rintro ⟨⟩, by rintro _ ⟨⟩, ?_, ?_⟩
    · cases more with
      | nil =>
        change 1 + readsLeft socket = readsLeft socket + 1
        omega
      | cons second more =>
        change more.length + 1 + 1 + readsLeft socket = more.length + 1 + readsLeft socket + 1
        omega
    · intro fails
      obtain ⟨errno, member⟩ := fails
      cases member with
      | tail _ member =>
        cases more with
        | nil => exact ⟨errno, member⟩
        | cons second more => exact ⟨errno, mem_cons_of_mem _ member⟩

theorem skip_ended (count : Nat) (socket : Socket)
    (short : count ≤ readsLeft socket + 1 ∨ Fails socket) :
    Received.closed ∉ (skip count socket).1.dropLast := by
  induction count generalizing socket with
  | zero => exact not_mem_nil
  | succ count inductionHypothesis =>
    cases socket with
    | nil =>
      have only : count = 0 := by
        rcases short with short | fails
        · change count + 1 ≤ 0 + 1 at short
          omega
        · obtain ⟨errno, member⟩ := fails
          cases member
      rw [only]
      exact not_mem_nil
    | cons arrival socket =>
      rcases read_one_left arrival socket with failed | ⟨open_, sound, left, later⟩
      · obtain ⟨errno, rfl⟩ := failed
        exact not_mem_nil
      · have next := inductionHypothesis (read 1 (arrival :: socket)).2 (by
          rcases short with short | fails
          · left
            omega
          · exact Or.inr (later fails))
        rw [skip]
        split
        · rename_i errno rest failing
          rw [failing] at sound
          exact absurd rfl (sound errno)
        · rename_i got rest _ reading
          rw [reading] at open_ next
          dsimp only at open_ next ⊢
          cases tail : (skip count rest).1 with
          | nil => exact not_mem_nil
          | cons second more =>
            rw [tail] at next
            intro member
            rw [dropLast_cons_of_ne_nil (cons_ne_nil second more)] at member
            rcases mem_cons.mp member with same | member
            · exact open_ same.symm
            · exact next member

theorem scanUlong_small {base value : Nat} {text : Bytes} (scanned : scanUlong base text = some value) :
    value < 2 ^ 64 := by
  unfold scanUlong at scanned
  obtain ⟨digits, _, result⟩ := map_eq_some_iff.mp scanned
  have range (negative : Bool) : (if ulongMax < digits then ulongMax
      else if negative = true then (2 ^ 64 - digits) % 2 ^ 64 else digits) < 2 ^ 64 := by
    unfold ulongMax
    split
    · omega
    · split <;> omega
  rw [← result]
  exact range _

theorem contentLength_small {text : Bytes} {length : Nat}
    (known : contentLength text = some (some length)) : length < 2 ^ 64 := by
  unfold contentLength at known
  obtain ⟨offset, _, scanned⟩ := map_eq_some_iff.mp known
  exact scanUlong_small scanned

/-! ### The buffer -/

/-- What the buffer holds between two calls; there is room for a byte and the NUL. -/
structure HttpHeld (reader : Reader) (taken : Bytes) : Prop where
  held : Held (reader.allocate 8192) taken 8192
  room : taken.length < 8191

theorem blankAt_bound {received : Bytes} {offset : Nat} (found : blankAt received = some offset) :
    offset + 4 ≤ (cString received).length ∧ (cString received).length ≤ received.length := by
  have bound := strstr_bound found
  have size : blankLine.length = 4 := rfl
  rw [size] at bound
  exact ⟨bound, (cString_initial received).length_le⟩

theorem blockString_cut {block : Block UInt8} {received : Bytes} {offset : Nat}
    (front : received.map some <+: block) (inside : offset ≤ received.length)
    (room : offset < block.length) :
    ∃ stored, block.store offset [some 0] = some stored ∧
      blockString stored = some ((cString received).take offset) := by
  have cut : (received.take offset).map some <+: block := by
    rw [map_take]
    exact ( take_prefix offset _).trans front
  have length : ((received.take offset).map some).length = offset := by
    rw [length_map, length_take]
    omega
  have behind : ((received.take offset).map some).length + [some (0 : UInt8)].length ≤ block.length := by
    rw [length, length_singleton]
    omega
  obtain ⟨stored, done, _, ended⟩ := Block.store_after cut behind
  rw [length] at done
  refine ⟨stored, done, ?_⟩
  rw [ blockString_of_prefix ended, cString_take]

inductive Called (info : ProxyInfo) (answer : NtlmAnswer) (taken : Bytes) (socket : Socket) :
    HttpCall → Prop
  | failed {failure : HttpFailure} {rest : Socket} :
      Called info answer taken socket ⟨.fails failure, [], [], rest⟩
  | nothing {reader : Reader} {rest : Socket} (held : HttpHeld reader taken) :
      Called info answer taken socket ⟨.waits reader, [], [], rest⟩
  | more {reader : Reader} {got : Bytes} {rest : Socket} (held : HttpHeld reader (taken ++ got)) :
      Called info answer taken socket ⟨.waits reader, got, [], rest⟩
  | parsed {got : Bytes} {rest : Socket} (reading : nextRead taken socket = (.data got, rest))
      (complete : Complete (taken ++ got)) :
      Called info answer taken socket
        (readContents info answer (headerText (taken ++ got)) (bodyCounted taken (taken ++ got)) got rest)

theorem httpReply_called (info : ProxyInfo) (answer : NtlmAnswer) {taken got : Bytes}
    {rest : Socket} (held : Held reader (taken ++ got) 8192) (room : taken.length < 8191)
    (reading : nextRead taken socket = (.data got, rest)) :
    ∃ call, httpReply info answer reader (8191 - taken.length) got rest = some call ∧
      Called info answer taken socket call := by
  have short : got.length ≤ 8191 - taken.length := read_length reading
  have total : (taken ++ got).length = taken.length + got.length := length_append
  have all : reader.bytesAt 0 reader.readLen = some (taken ++ got) := by
    have nothingElse : [] ++ (taken ++ got) ++ [] = taken ++ got := by rw [nil_append, append_nil]
    rw [held.counted]
    rw [← nothingElse] at held
    have whole := held.bytesAt
    rw [length_nil] at whole
    exact whole
  obtain ⟨⟨block, found, length, front⟩, sized, counted⟩ := held
  have mapped : ((taken ++ got).map some).length = (taken ++ got).length := length_map _
  have behind : ((taken ++ got).map some).length + [some (0 : UInt8)].length ≤ block.length := by
    rw [mapped, length_singleton]
    omega
  obtain ⟨stored, done, same, ended⟩ := Block.store_after front behind
  rw [mapped, ← counted] at done
  have still : (taken ++ got).map some <+: stored := (prefix_append _ _).trans ended
  have text : blockString stored = some (cString (taken ++ got)) := blockString_of_prefix ended
  unfold httpReply
  rw [found, all]
  dsimp only [bind_eq_bind, bind_some]
  rw [done]
  dsimp only [bind_some]
  cases blank : strstr (ascii "\r\n\r\n") (cString (taken ++ got)) with
  | some offset =>
    have blank : blankAt (taken ++ got) = some offset := blank
    have bound := blankAt_bound blank
    have inside : offset ≤ (taken ++ got).length := by omega
    obtain ⟨cut, written, header⟩ := blockString_cut still inside (by omega)
    have counts : gsizeSub reader.readLen (offset + 4) = bodyCounted taken (taken ++ got) := by
      rw [bodyCounted, blank, counted]
      exact gsizeSub_of_le (by omega) (by omega)
    have shown : headerText (taken ++ got) = (cString (taken ++ got)).take offset := by
      rw [headerText, blank]
    dsimp only
    rw [written, bind_some, header, bind_some, counts, ← shown]
    exact ⟨_, rfl, .parsed reading (Or.inl (by rw [blank]; rfl))⟩
  | none =>
    have blank : blankAt (taken ++ got) = none := blank
    dsimp only
    by_cases full : got.length = 8191 - taken.length
    · have counts : gsizeSub reader.readLen got.length = bodyCounted taken (taken ++ got) := by
        rw [bodyCounted, blank, counted, gsizeSub_of_le (by omega) (by omega)]
        dsimp only
        omega
      have shown : headerText (taken ++ got) = cString (taken ++ got) := by
        rw [headerText, blank]
      rw [if_pos full, text, bind_some, counts, ← shown]
      exact ⟨_, rfl, .parsed reading (Or.inr (by omega))⟩
    · rw [if_neg full]
      have next : Held { reader with readBuffer := some stored } (taken ++ got) 8192 :=
        ⟨⟨stored, rfl, same.trans length, still⟩, sized, counted⟩
      refine ⟨_, rfl, .more ⟨?_, by omega⟩⟩
      rw [next.allocate]
      exact next

theorem httpCanread_called (info : ProxyInfo) (answer : NtlmAnswer) {taken : Bytes}
    (held : HttpHeld reader taken) (socket : Socket) :
    ∃ call, httpCanread info answer reader socket = some call ∧ Called info answer taken socket call := by
  obtain ⟨held, room⟩ := held
  have free : gsizeSub (gsizeSub (reader.allocate 8192).readBufLen (reader.allocate 8192).readLen) 1 =
      8191 - taken.length := by
    have empty : gsizeSub 8192 taken.length = 8192 - taken.length :=
      gsizeSub_of_le (by omega) (by omega)
    rw [held.sized, held.counted, empty, gsizeSub_of_le (by omega) (by omega)]
    omega
  unfold httpCanread
  dsimp only
  rw [free]
  cases reading : read (8191 - taken.length) socket with
  | mk received rest =>
    cases received with
    | closed => exact ⟨_, rfl, .failed⟩
    | again => exact ⟨_, rfl, .nothing ⟨by rw [held.allocate]; exact held, room⟩⟩
    | failed errno => exact ⟨_, rfl, .failed⟩
    | data got =>
      dsimp only
      by_cases none_ : got = []
      · rw [if_pos none_]
        exact ⟨_, rfl, .failed⟩
      · rw [if_neg none_]
        have short := read_length reading
        have inside : taken.length + got.length ≤ 8192 := by omega
        obtain ⟨next, stored, holds⟩ := held.store inside
        rw [stored, bind_some]
        exact httpReply_called info answer holds room reading

theorem answerStatus_ends (info : ProxyInfo) (answer : NtlmAnswer) (text : Bytes) (reader : Reader) :
    answerStatus info answer text ≠ .waits reader := by
  unfold answerStatus
  dsimp only
  split
  · exact nofun
  · split
    · exact nofun
    · split
      · split <;> exact nofun
      · split <;> exact nofun

theorem readContents_ends (info : ProxyInfo) (answer : NtlmAnswer) (text got : Bytes) (counted : Nat)
    (rest : Socket) (reader : Reader) :
    (readContents info answer text counted got rest).outcome ≠ .waits reader := by
  unfold readContents
  split
  · exact answerStatus_ends info answer text reader
  · exact nofun
  · exact answerStatus_ends info answer text reader

theorem empty_held : HttpHeld .empty [] :=
  ⟨held_allocated rfl 8192, by decide⟩

theorem httpRun_held {sent : Socket} {taken : Bytes}
    (run : HttpRun info answer sent reader socket taken) : HttpHeld reader taken := by
  induction run with
  | begins => exact empty_held
  | retries _ _ _ _ => exact empty_held
  | waits before called waiting held =>
    rename_i reader next socket taken call
    obtain ⟨other, result, spec⟩ := httpCanread_called info answer held socket
    rw [called] at result
    cases result
    cases spec with
    | failed => cases waiting
    | nothing held =>
      cases waiting
      rw [append_nil]
      exact held
    | more held =>
      cases waiting
      exact held
    | parsed _ _ => exact absurd waiting (readContents_ends info answer _ _ _ _ next)

theorem answerStatus_connected {text : Bytes}
    (connected : answerStatus info answer text = .connected) : parseStatus text = (false, 200) := by
  unfold answerStatus at connected
  dsimp only at connected
  split at connected
  · cases connected
  · rename_i sound
    split at connected
    · rename_i status
      exact Prod.ext (Bool.eq_false_iff.mpr sound) status
    · split at connected
      · split at connected <;> cases connected
      · split at connected <;> cases connected

theorem bodyBuffered_le (taken received : Bytes) : bodyBuffered received ≤ bodyCounted taken received := by
  unfold bodyBuffered bodyCounted
  split
  · exact Nat.le_refl _
  · exact Nat.zero_le _

theorem called_keeps {taken : Bytes} {call : HttpCall}
    (called : Called info answer taken socket call) (foreseen : Foreseen taken socket) :
    SkipsWithin (taken ++ call.got) call ∧ TunnelIntact (taken ++ call.got) call := by
  cases called with
  | failed => exact ⟨⟨fun _ _ => Nat.zero_le _, fun _ => rfl, not_mem_nil⟩, nofun⟩
  | nothing held => exact ⟨⟨fun _ _ => Nat.zero_le _, fun _ => rfl, not_mem_nil⟩, nofun⟩
  | more held => exact ⟨⟨fun _ _ => Nat.zero_le _, fun _ => rfl, not_mem_nil⟩, nofun⟩
  | parsed reading complete =>
    rename_i got rest
    unfold Foreseen at foreseen
    rw [reading] at foreseen
    obtain ⟨covers, ends, empty⟩ := foreseen complete
    unfold readContents
    split
    · rename_i unknown
      refine ⟨⟨fun _ _ => Nat.zero_le _, fun _ => rfl, not_mem_nil⟩, ?_⟩
      intro connected
      change EndsAtBlank (taken ++ got ++ [])
      rw [append_nil]
      exact ends (answerStatus_connected connected)
    · exact ⟨⟨fun _ _ => Nat.zero_le _, fun _ => rfl, not_mem_nil⟩, nofun⟩
    · rename_i length known
      obtain ⟨covered, short⟩ := covers length known
      have rest_ : gsizeSub length (bodyCounted taken (taken ++ got)) =
          length - bodyCounted taken (taken ++ got) :=
        gsizeSub_of_le covered (contentLength_small known)
      have within : length - bodyCounted taken (taken ++ got) ≤ length - bodyBuffered (taken ++ got) :=
        Nat.sub_le_sub_left (bodyBuffered_le taken (taken ++ got)) length
      dsimp only
      rw [rest_]
      refine ⟨⟨?_, ?_, skip_ended _ _ short⟩, ?_⟩
      · intro other same
        rw [known] at same
        cases same
        exact Nat.le_trans (skip_length _ _) within
      · intro unknown
        exact absurd known (unknown length)
      · intro connected
        have accepts := answerStatus_connected connected
        have all : length = bodyCounted taken (taken ++ got) := empty accepts length known
        have nothingLeft : length - bodyCounted taken (taken ++ got) = 0 := by omega
        dsimp only
        rw [nothingLeft]
        change EndsAtBlank (taken ++ got ++ [])
        rw [append_nil]
        exact ends accepts

/-- Every call of every run keeps to the buffer; where the reply is as it must be, no more is
    skipped than there is, and a tunnel begins behind the blank line. -/
theorem httpCanread_keeps (info : ProxyInfo) (answer : NtlmAnswer) {sent socket : Socket}
    {reader : Reader} {taken : Bytes} (run : HttpRun info answer sent reader socket taken) :
    ∃ call, httpCanread info answer reader socket = some call ∧
      (Foreseen taken socket →
        SkipsWithin (taken ++ call.got) call ∧ TunnelIntact (taken ++ call.got) call) := by
  obtain ⟨call, ran, called⟩ := httpCanread_called info answer (httpRun_held run) socket
  exact ⟨call, ran, called_keeps called⟩

/-! ### Replies that say less than was read -/

def plainInfo : ProxyInfo where
  type := .http
  settings := { host := ascii "host", port := 5222, username := none, password := none, md5 := id }
  remoteDns := false
  hostname := ascii "localhost"
  base64Encode := id
  ntlmGenType1 := fun host _ => host

def plainAnswer : NtlmAnswer := fun _ _ _ _ challenge => challenge

def HttpOutcome.isConnected : HttpOutcome → Bool
  | .connected => true
  | _ => false

theorem isConnected_iff {outcome : HttpOutcome} :
    outcome.isConnected = true ↔ outcome = .connected := by
  cases outcome with
  | connected => exact iff_of_true rfl rfl
  | waits reader => exact iff_of_false nofun nofun
  | fails failure => exact iff_of_false nofun nofun
  | retries request => exact iff_of_false nofun nofun

def arrived (text : Bytes) : Socket := unread text []

def forbiddenPage : Bytes := ascii "HTTP/1.1 403 Forbidden\r\nContent-Length: 3\r\n\r\n"

theorem httpCanread_forbidden :
    ∃ call, httpCanread plainInfo plainAnswer .empty (arrived (forbiddenPage ++ ascii "no")) = some call ∧
      SkipsWithin call.got call ∧ TunnelIntact call.got call := by
  have run : HttpRun plainInfo plainAnswer (arrived (forbiddenPage ++ ascii "no")) .empty
      (arrived (forbiddenPage ++ ascii "no")) [] := .begins
  obtain ⟨call, ran, keeps⟩ := httpCanread_keeps plainInfo plainAnswer run
  have length : contentLength (headerText (forbiddenPage ++ ascii "no")) = some (some 3) := by
    decide +kernel
  have status : parseStatus (headerText (forbiddenPage ++ ascii "no")) = (false, 403) := by
    decide +kernel
  have foreseen : Foreseen [] (arrived (forbiddenPage ++ ascii "no")) := by
    intro _
    have counted : bodyCounted [] (forbiddenPage ++ ascii "no") = 2 := by decide +kernel
    have read_ : [] ++ (nextRead [] (arrived (forbiddenPage ++ ascii "no"))).1.bytes =
        forbiddenPage ++ ascii "no" := by decide +kernel
    rw [read_]
    refine ⟨?_, ?_, ?_⟩
    · intro other known
      rw [length] at known
      cases known
      refine ⟨?_, Or.inl ?_⟩
      · rw [counted]
        omega
      · rw [counted]
        omega
    · intro accepts
      rw [Accepts, status] at accepts
      cases accepts
    · intro accepts
      rw [Accepts, status] at accepts
      cases accepts
  exact ⟨call, ran, keeps foreseen⟩

/-- Two reads behind the end of the stream; a page that is longer than it says; and a tunnel
    whose first byte came with the reply. -/
theorem httpCanread_oversteps :
    (∃ call, httpCanread plainInfo plainAnswer .empty (arrived forbiddenPage) = some call ∧
      ¬ SkipsWithin call.got call) ∧
    (∃ call, httpCanread plainInfo plainAnswer .empty
        (arrived (ascii "HTTP/1.1 403 Forbidden\r\nContent-Length: 0\r\n\r\nno") ++ [.failed 104]) =
          some call ∧
      ¬ SkipsWithin call.got call) ∧
    ∃ call, httpCanread plainInfo plainAnswer .empty
        (arrived (ascii "HTTP/1.1 200 OK\r\n\r\n<")) = some call ∧
      ¬ TunnelIntact call.got call := by
  refine ⟨?_, ?_, ?_⟩
  · have seen : (httpCanread plainInfo plainAnswer .empty (arrived forbiddenPage)).map
        (fun call => call.skipped) = some [.closed, .closed, .closed] := by decide +kernel
    obtain ⟨call, ran, skipped⟩ := map_eq_some_iff.mp seen
    refine ⟨call, ran, fun within => ?_⟩
    have ended := within.ended
    rw [skipped] at ended
    exact absurd ended (by decide)
  · have seen : (httpCanread plainInfo plainAnswer .empty
        (arrived (ascii "HTTP/1.1 403 Forbidden\r\nContent-Length: 0\r\n\r\nno") ++ [.failed 104])).map
          (fun call => (call.skipped, contentLength (headerText call.got))) =
            some ([.failed 104], some (some 0)) := by decide +kernel
    obtain ⟨call, ran, both⟩ := map_eq_some_iff.mp seen
    obtain ⟨skipped, length⟩ := Prod.ext_iff.mp both
    dsimp only at skipped length
    refine ⟨call, ran, fun within => ?_⟩
    have bound := within.bounded 0 length
    rw [skipped, Nat.zero_sub] at bound
    exact absurd bound (by decide)
  · have seen : (httpCanread plainInfo plainAnswer .empty
        (arrived (ascii "HTTP/1.1 200 OK\r\n\r\n<"))).map
          (fun call => (call.outcome.isConnected, call.got, call.skipped)) =
            some (true, ascii "HTTP/1.1 200 OK\r\n\r\n<", []) := by decide +kernel
    obtain ⟨call, ran, all⟩ := map_eq_some_iff.mp seen
    obtain ⟨connected, rest⟩ := Prod.ext_iff.mp all
    obtain ⟨got, skipped⟩ := Prod.ext_iff.mp rest
    dsimp only at connected got skipped
    refine ⟨call, ran, fun intact => ?_⟩
    have ends := intact (isConnected_iff.mp connected)
    rw [got, skipped] at ends
    have blank : strstr blankLine (ascii "HTTP/1.1 200 OK\r\n\r\n<") = some 15 := by decide +kernel
    have bound := ends 15 blank
    exact absurd bound (by decide +kernel)

end Purple.Proxy
