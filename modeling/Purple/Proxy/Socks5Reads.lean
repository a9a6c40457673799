/-
What a SOCKS5 proxy says, one byte after the other, and the callbacks against it.

Of what is said the state is what was said of the reply that has begun.  Between two reads
the buffer holds the bytes of that reply; a CHAP message of which attributes were taken is
held as one with the attributes that are left.
-/

import Mathlib.Data.List.TakeDrop
import Purple.Proxy.Socks5

namespace Purple.Proxy

open Option

/-- What is being said: the method, the answer to the password, the head of a CHAP
message, one of the attributes that are left of it, the reply to CONNECT. -/
inductive Awaiting where
  | method (got : Bytes)
  | auth (got : Bytes)
  | header (got : Bytes)
  | chap (left : Nat) (got : Bytes)
  | reply (got : Bytes)
  | finished
deriving DecidableEq, Repr

def ReadCb.fresh : ReadCb → Awaiting
  | .s5Canread => .method []
  | .s5Readauth => .auth []
  | .s5Readchap => .header []
  | .s5CanreadAgain => .reply []

def acted : Outcome → Option (Awaiting × List Action)
  | .waits _ => none
  | .ends action => some (.finished, [action])
  | .sends request readCb => some (readCb.fresh, [.sends request])

def attributes (left : Nat) : Awaiting := if left = 0 then .header [] else .chap left []

/-- The bytes of a reply to CONNECT of which these are the first: five until the kind of
its address is known, and the shortest one until its length is. -/
def replyLength (got : Bytes) : Nat :=
  match got[3]? with
  | none => 5
  | some kind =>
    if kind = 1 then 10
    else if kind = 3 then 7 + (got[4]?.getD 0).toNat
    else 22

def replyOutcome (got : Bytes) : Option (Option Outcome) :=
  match got[0]?, got[1]?, got[3]? with
  | some version, some status, some kind =>
    if version ≠ 5 ∨ status ≠ 0 then some (refusal version status)
    else if kind = 1 ∨ kind = 3 ∨ kind = 4 then
      if got.length < replyLength got then none else some (some (.ends .connected))
    else some (some (disconnect invalidText))
  | _, _, _ => none

def attributeTaken (settings : Settings) (left : Nat) (kind : UInt8) (value : Bytes) :
    Option (Awaiting × List Action) :=
  if value = [] then some (attributes left, [])
  else
    (chapAttribute settings kind value).bind fun stopped =>
      stopped.elim (some (attributes left, [])) acted

/-- The next byte; `none` where the client would read a string that is NULL. -/
def feed (settings : Settings) : Awaiting → UInt8 → Option (Awaiting × List Action)
  | .method [], byte => some (.method [byte], [])
  | .method (version :: _), byte => (chooseMethod settings version byte).bind acted
  | .auth [], byte => some (.auth [byte], [])
  | .auth (version :: _), byte => acted (checkAuth settings version byte)
  | .header [], byte => some (.header [byte], [])
  | .header (version :: _), byte =>
    if version ≠ 1 then acted (disconnect invalidText) else some (attributes byte.toNat, [])
  | .chap left [], byte => some (.chap left [byte], [])
  | .chap left [kind], byte =>
    if byte = 0 then attributeTaken settings (left - 1) kind []
    else some (.chap left [kind, byte], [])
  | .chap left (kind :: length :: value), byte =>
    if (value ++ [byte]).length < length.toNat then
      some (.chap left (kind :: length :: value ++ [byte]), [])
    else attributeTaken settings (left - 1) kind (value ++ [byte])
  | .reply got, byte =>
    (replyOutcome (got ++ [byte])).elim (some (.reply (got ++ [byte]), [])) fun outcome =>
      outcome.bind acted
  | .finished, _ => some (.finished, [])

def feeds (settings : Settings) : Awaiting → Bytes → Option (Awaiting × List Action)
  | awaiting, [] => some (awaiting, [])
  | awaiting, byte :: rest =>
    (feed settings awaiting byte).bind fun next =>
      (feeds settings next.1 rest).map fun last => (last.1, next.2 ++ last.2)

variable {settings : Settings}

theorem feeds_append (awaiting : Awaiting) (first second : Bytes) :
    feeds settings awaiting (first ++ second) =
      (feeds settings awaiting first).bind fun next =>
        (feeds settings next.1 second).map fun last => (last.1, next.2 ++ last.2) := by
  induction first generalizing awaiting with
  | nil =>
    rw [List.nil_append, feeds, bind_some]
    cases feeds settings awaiting second <;> rfl
  | cons byte rest ih =>
    rw [List.cons_append, feeds, feeds]
    cases feed settings awaiting byte with
    | none => rfl
    | some next =>
      rw [bind_some, bind_some, ih]
      cases feeds settings next.1 rest with
      | none => rfl
      | some middle =>
        rw [bind_some, map_some, bind_some, Option.map_map]
        congr 1
        funext last
        change (last.1, next.2 ++ (middle.2 ++ last.2)) = (last.1, next.2 ++ middle.2 ++ last.2)
        rw [List.append_assoc]

theorem feeds_single (awaiting : Awaiting) (byte : UInt8) :
    feeds settings awaiting [byte] = feed settings awaiting byte := by
  rw [feeds]
  cases feed settings awaiting byte with
  | none => rfl
  | some next =>
    change some (next.1, next.2 ++ []) = some next
    rw [List.append_nil]

theorem feeds_silent {awaiting middle : Awaiting} {first : Bytes}
    (silent : feeds settings awaiting first = some (middle, [])) (second : Bytes) :
    feeds settings awaiting (first ++ second) = feeds settings middle second := by
  rw [feeds_append, silent, bind_some]
  cases feeds settings middle second <;> rfl

theorem feeds_finished (bytes : Bytes) : feeds settings .finished bytes = some (.finished, []) := by
  induction bytes with
  | nil => rfl
  | cons byte rest ih =>
    rw [feeds, feed, bind_some, ih]
    rfl

theorem feeds_front {awaiting last : Awaiting} {actions : List Action} {first second : Bytes}
    (fed : feeds settings awaiting (first ++ second) = some (last, actions)) :
    ∃ middle early late, feeds settings awaiting first = some (middle, early) ∧
      feeds settings middle second = some (last, late) ∧ actions = early ++ late := by
  rw [feeds_append] at fed
  obtain ⟨⟨middle, early⟩, front, fed⟩ := bind_eq_some_iff.mp fed
  obtain ⟨⟨after, late⟩, back, same⟩ := map_eq_some_iff.mp fed
  cases same
  exact ⟨middle, early, late, front, back, rfl⟩

open List Memory

structure Held (reader : Reader) (got : Bytes) (size : Nat) : Prop where
  block : ∃ block, reader.readBuffer = some block ∧ block.length = size ∧ got.map some <+: block
  sized : reader.readBufLen = size
  counted : reader.readLen = got.length

/-! ### The buffer -/

variable {reader : Reader} {got bytes : Bytes} {size : Nat} {next : Awaiting × List Action}

theorem held_allocated (free : reader.readBuffer = none) (size : Nat) :
    Held (reader.allocate size) [] size := by
  have allocated : reader.allocate size =
      { readBuffer := some (List.replicate size none), readBufLen := size, readLen := 0 } := by
    rw [Reader.allocate, free]
  rw [allocated]
  exact ⟨⟨_, rfl, length_replicate, nil_prefix⟩, rfl, rfl⟩

theorem Held.allocate (held : Held reader got size) (other : Nat) :
    reader.allocate other = reader := by
  obtain ⟨block, found, _, _⟩ := held.block
  rw [Reader.allocate, found]

theorem Held.byteAt (held : Held reader got size) (index : Nat) :
    reader.byteAt index = got[index]? := by
  obtain ⟨⟨block, found, _, front⟩, _, counted⟩ := held
  obtain ⟨behind, rfl⟩ := front
  rw [Reader.byteAt, counted, found]
  by_cases inside : index < got.length
  · have mapped : index < (got.map some).length := by
      rw [length_map]
      exact inside
    rw [if_pos inside, bind_some, getElem?_append_left mapped, getElem?_map]
    cases got[index]? <;> rfl
  · rw [if_neg inside, getElem?_eq_none (Nat.le_of_not_lt inside)]

theorem Held.length_le (held : Held reader got size) : got.length ≤ size := by
  obtain ⟨⟨block, _, length, front⟩, _, _⟩ := held
  have := front.length_le
  rw [length_map, length] at this
  exact this

theorem Held.store (held : Held reader got size) (room : got.length + bytes.length ≤ size) :
    ∃ next, reader.store bytes = some next ∧ Held next (got ++ bytes) size := by
  obtain ⟨⟨block, found, length, front⟩, sized, counted⟩ := held
  have inside : (got.map some).length + (bytes.map some).length ≤ block.length := by
    rw [length_map, length_map, length]
    exact room
  obtain ⟨stored, done, same, longer⟩ := Block.store_after front inside
  rw [length_map, ← counted] at done
  rw [← map_append] at longer
  have result : reader.store bytes = some { reader with
      readBuffer := some stored
      readLen := reader.readLen + bytes.length } := by
    rw [Reader.store, found, bind_some, done]
    rfl
  refine ⟨_, result, ⟨stored, rfl, same.trans length, longer⟩, sized, ?_⟩
  change reader.readLen + bytes.length = _
  rw [counted, length_append]

theorem Held.realloc (held : Held reader got size) {len : Nat} (more : size < len) :
    Held (reader.realloc len) got len := by
  obtain ⟨⟨block, found, length, front⟩, sized, counted⟩ := held
  refine ⟨⟨block.realloc len, by rw [Reader.realloc, found]; rfl, Block.realloc_length _ _,
    Block.prefix_realloc front ?_⟩, rfl, counted⟩
  have := front.length_le
  omega

theorem Held.load {front rest : Bytes} (held : Held reader (front ++ rest) size) :
    ∃ block, reader.readBuffer = some block ∧ block.length = size ∧
      (front ++ rest).map some <+: block ∧
      block.load front.length rest.length = some (rest.map some) := by
  obtain ⟨⟨block, found, length, initial⟩, _, _⟩ := held
  have loaded := Block.load_front (front.map some) (rest.map some) (map_append ▸ initial)
  rw [length_map, length_map] at loaded
  exact ⟨block, found, length, initial, loaded⟩

theorem Held.bytesAt {front value rest : Bytes} (held : Held reader (front ++ value ++ rest) size) :
    reader.bytesAt front.length value.length = some value := by
  obtain ⟨⟨block, found, length, behind, cells⟩, _, counted⟩ := held
  have inside : front.length + value.length ≤ reader.readLen := by
    rw [counted, length_append, length_append]
    exact Nat.le_add_right _ _
  have loaded := Block.load_front (front.map some) (value.map some)
    (⟨rest.map some ++ behind, by
      rw [← cells, map_append, map_append, append_assoc _ (rest.map some)]⟩ :
        front.map some ++ value.map some <+: block)
  rw [length_map, length_map] at loaded
  rw [Reader.bytesAt, if_pos inside, found, bind_some, loaded]
  exact mapM_stored value

theorem moved_front {block : Block UInt8} {front rest head : Bytes}
    (initial : (front ++ rest).map some <+: block) (shorter : head.length ≤ front.length)
    (headed : head.map some <+: block) :
    ∃ stored, block.store head.length (rest.map some) = some stored ∧
      stored.length = block.length ∧ (head ++ rest).map some <+: stored := by
  have room : (head.map some).length + (rest.map some).length ≤ block.length := by
    have := initial.length_le
    rw [length_map, length_append] at this
    rw [length_map, length_map]
    omega
  obtain ⟨stored, done, length, longer⟩ := Block.store_after headed room
  rw [length_map] at done
  rw [← map_append] at longer
  exact ⟨stored, done, length, longer⟩

def Ready (readCb : ReadCb) (reader : Reader) (got : Bytes) (size : Nat) : Prop :=
  Held (reader.allocate (readSize readCb)) got size

theorem Held.ready {readCb : ReadCb} (held : Held reader got size) :
    Ready readCb reader got size := by
  rw [Ready, held.allocate]
  exact held

def Incomplete : Bytes → Prop
  | _ :: length :: value => value.length < length.toNat
  | _ => True

/-- The callback that is installed and its buffer, for what the proxy is saying. -/
def Agrees (readCb : Option ReadCb) (reader : Reader) : Awaiting → Prop
  | .method got => readCb = some .s5Canread ∧ got.length < 2 ∧ Ready .s5Canread reader got 2
  | .auth got => readCb = some .s5Readauth ∧ got.length < 2 ∧ Ready .s5Readauth reader got 2
  | .header got => readCb = some .s5Readchap ∧ got.length < 2 ∧ Ready .s5Readchap reader got 259
  | .chap left got =>
    readCb = some .s5Readchap ∧ 0 < left ∧ left < 256 ∧ Incomplete got ∧
      Ready .s5Readchap reader (1 :: byteOf left :: got) 259
  | .reply got =>
    readCb = some .s5CanreadAgain ∧ ∃ size, Ready .s5CanreadAgain reader got size ∧
      got.length < size ∧ 5 ≤ size ∧ size ≤ replyLength got
  | .finished => readCb = none

theorem agrees_fresh (readCb : ReadCb) : Agrees (some readCb) .empty readCb.fresh := by
  cases readCb with
  | s5Canread => exact ⟨rfl, Nat.zero_lt_two, held_allocated rfl 2⟩
  | s5Readauth => exact ⟨rfl, Nat.zero_lt_two, held_allocated rfl 2⟩
  | s5Readchap => exact ⟨rfl, Nat.zero_lt_two, held_allocated rfl 259⟩
  | s5CanreadAgain =>
    exact ⟨rfl, 5, held_allocated rfl 5, Nat.succ_pos 4, Nat.le_refl 5, Nat.le_refl 5⟩

/-- An outcome of the callback against the next state and the actions. -/
def Meets (readCb : ReadCb) (outcome : Outcome) (next : Awaiting × List Action) : Prop :=
  match outcome with
  | .waits reader => Agrees (some readCb) reader next.1 ∧ next.2 = []
  | .ends action => acted (.ends action) = some next
  | .sends request readCb => acted (.sends request readCb) = some next

theorem meets_of_acted {readCb : ReadCb} {outcome : Outcome} (done : acted outcome = some next) :
    Meets readCb outcome next := by
  cases outcome with
  | waits reader => cases done
  | ends action => exact done
  | sends request other => exact done

theorem pair_cases (short : got.length < 2) (some' : bytes ≠ [])
    (fits : got.length + bytes.length ≤ 2) :
    (∃ first, got = [] ∧ bytes = [first]) ∨
      ∃ first second, got ++ bytes = [first, second] ∧
        ((got = [] ∧ bytes = [first, second]) ∨ (got = [first] ∧ bytes = [second])) := by
  match got, bytes with
  | _, [] => exact absurd rfl some'
  | [], [first] => exact Or.inl ⟨first, rfl, rfl⟩
  | [], [first, second] => exact Or.inr ⟨first, second, rfl, Or.inl ⟨rfl, rfl⟩⟩
  | [first], [second] => exact Or.inr ⟨first, second, rfl, Or.inr ⟨rfl, rfl⟩⟩
  | [], _ :: _ :: _ :: _ =>
    simp only [length_cons, length_nil] at fits
    omega
  | [_], _ :: _ :: _ =>
    simp only [length_cons, length_nil] at fits
    omega
  | _ :: _ :: _, _ =>
    simp only [length_cons] at short
    omega

variable {settings : Settings}

theorem parseMethod_meets (short : got.length < 2) (some' : bytes ≠ [])
    (fits : got.length + bytes.length ≤ 2) (held : Held reader (got ++ bytes) 2)
    (fed : feeds settings (.method got) bytes = some next) :
    ∃ outcome, parseMethod settings reader = some outcome ∧ Meets .s5Canread outcome next := by
  rcases pair_cases short some' fits with ⟨first, rfl, rfl⟩ | ⟨first, second, whole, cut⟩
  · cases fed
    have waiting : reader.readLen < 2 := by
      rw [held.counted]
      exact Nat.one_lt_two
    exact ⟨.waits reader, if_pos waiting, ⟨rfl, Nat.one_lt_two, held.ready⟩, rfl⟩
  · have complete : ¬reader.readLen < 2 := by
      rw [held.counted, whole]
      exact Nat.lt_irrefl 2
    have parsed : parseMethod settings reader = chooseMethod settings first second := by
      rw [parseMethod, if_neg complete, held.byteAt, held.byteAt, whole]
      rfl
    have chosen : (chooseMethod settings first second).bind acted = some next := by
      rw [← fed]
      rcases cut with ⟨rfl, rfl⟩ | ⟨rfl, rfl⟩
      · exact ((@feeds_silent settings (.method []) (.method [first]) [first] rfl [second]).trans
          (feeds_single _ second)).symm
      · exact (feeds_single (.method [first]) second).symm
    obtain ⟨outcome, made, after⟩ := bind_eq_some_iff.mp chosen
    exact ⟨outcome, parsed.trans made, meets_of_acted after⟩

theorem parseAuth_meets (short : got.length < 2) (some' : bytes ≠ [])
    (fits : got.length + bytes.length ≤ 2) (held : Held reader (got ++ bytes) 2)
    (fed : feeds settings (.auth got) bytes = some next) :
    ∃ outcome, parseAuth settings reader = some outcome ∧ Meets .s5Readauth outcome next := by
  rcases pair_cases short some' fits with ⟨first, rfl, rfl⟩ | ⟨first, second, whole, cut⟩
  · cases fed
    have waiting : reader.readLen < 2 := by
      rw [held.counted]
      exact Nat.one_lt_two
    exact ⟨.waits reader, if_pos waiting, ⟨rfl, Nat.one_lt_two, held.ready⟩, rfl⟩
  · have complete : ¬reader.readLen < 2 := by
      rw [held.counted, whole]
      exact Nat.lt_irrefl 2
    have parsed : parseAuth settings reader = some (checkAuth settings first second) := by
      rw [parseAuth, if_neg complete, held.byteAt, held.byteAt, whole]
      rfl
    have checked : acted (checkAuth settings first second) = some next := by
      rw [← fed]
      rcases cut with ⟨rfl, rfl⟩ | ⟨rfl, rfl⟩
      · exact ((@feeds_silent settings (.auth []) (.auth [first]) [first] rfl [second]).trans
          (feeds_single _ second)).symm
      · exact (feeds_single (.auth [first]) second).symm
    exact ⟨_, parsed, meets_of_acted checked⟩

/-! ### The reply to CONNECT -/

theorem getElem?_kept {index : Nat} {byte : UInt8} (there : got[index]? = some byte)
    (more : Bytes) : (got ++ more)[index]? = some byte := by
  have inside : index < got.length := (List.getElem?_eq_some_iff.mp there).1
  rw [getElem?_append_left inside, there]

theorem replyLength_mono (got more : Bytes) : replyLength got ≤ replyLength (got ++ more) := by
  unfold replyLength
  cases kind : got[3]? with
  | none =>
    dsimp only
    split
    · exact Nat.le_refl 5
    · split
      · omega
      · split <;> omega
  | some byte =>
    rw [getElem?_kept kind more]
    dsimp only
    split
    · exact Nat.le_refl 10
    · split
      · cases length : got[4]? with
        | none => exact Nat.le_add_right 7 _
        | some count =>
          exact Nat.le_of_eq (by rw [getElem?_kept length more])
      · exact Nat.le_refl 22

theorem replyLength_five (got : Bytes) : 5 ≤ replyLength got := by
  unfold replyLength
  split
  · exact Nat.le_refl 5
  · split
    · omega
    · split <;> omega

theorem replyLength_settled (whole : replyLength got ≤ got.length) (more : Bytes) :
    replyLength (got ++ more) = replyLength got := by
  have five := replyLength_five got
  have kind : (got ++ more)[3]? = got[3]? := getElem?_append_left (by omega)
  have length : (got ++ more)[4]? = got[4]? := getElem?_append_left (by omega)
  unfold replyLength
  rw [kind, length]

theorem refusal_ends (version status : UInt8) :
    ∃ failure, refusal version status = some (.ends (.fails failure)) := by
  unfold refusal
  split
  · rename_i known
    have inside : status.toNat < socks5errors.length := known.2
    rw [getElem?_eq_getElem inside]
    exact ⟨_, rfl⟩
  · exact ⟨_, rfl⟩

theorem replyOutcome_ends {outcome : Option Outcome} (known : replyOutcome got = some outcome) :
    ∃ action, outcome = some (.ends action) := by
  unfold replyOutcome at known
  split at known
  · split at known
    · cases known
      obtain ⟨failure, refused⟩ := refusal_ends _ _
      exact ⟨_, refused⟩
    · split at known
      · split at known
        · cases known
        · cases known
          exact ⟨_, rfl⟩
      · cases known
        exact ⟨_, rfl⟩
  · cases known

theorem replyOutcome_connected (known : replyOutcome got = some (some (.ends .connected))) :
    replyLength got ≤ got.length := by
  unfold replyOutcome at known
  split at known
  · split at known
    · obtain ⟨failure, refused⟩ := refusal_ends _ _
      cases refused.symm.trans (Option.some.inj known)
    · split at known
      · split at known
        · cases known
        · rename_i enough
          exact Nat.le_of_not_lt enough
      · cases known
  · cases known

theorem replyOutcome_mono {outcome : Option Outcome} (known : replyOutcome got = some outcome)
    (more : Bytes) : replyOutcome (got ++ more) = some outcome := by
  unfold replyOutcome at known ⊢
  cases version : got[0]? with
  | none =>
    rw [version] at known
    cases known
  | some first =>
    cases status : got[1]? with
    | none =>
      rw [version, status] at known
      cases known
    | some second =>
      cases kind : got[3]? with
      | none =>
        rw [version, status, kind] at known
        cases known
      | some fourth =>
        rw [version, status, kind] at known
        rw [getElem?_kept version, getElem?_kept status, getElem?_kept kind]
        dsimp only at known ⊢
        split at known
        · rename_i refused
          rw [if_pos refused, known]
        · rename_i accepted
          rw [if_neg accepted]
          split at known
          · rename_i addressed
            rw [if_pos addressed]
            split at known
            · cases known
            · rename_i enough
              have whole := Nat.le_of_not_lt enough
              have still : ¬(got ++ more).length < replyLength (got ++ more) := by
                rw [replyLength_settled whole, length_append]
                omega
              rw [if_neg still, known]
          · rename_i invalid
            rw [if_neg invalid, known]

theorem feeds_reply (got : Bytes) (some' : bytes ≠ []) :
    feeds settings (.reply got) bytes =
      (replyOutcome (got ++ bytes)).elim (some (.reply (got ++ bytes), [])) fun outcome =>
        outcome.bind acted := by
  induction bytes generalizing got with
  | nil => exact absurd rfl some'
  | cons byte rest ih =>
    by_cases last : rest = []
    · rw [last, feeds_single, feed]
    · cases known : replyOutcome (got ++ [byte]) with
      | none =>
        have silent : feeds settings (.reply got) [byte] = some (.reply (got ++ [byte]), []) := by
          rw [feeds_single, feed, known]
          rfl
        rw [← singleton_append, feeds_silent silent, ih _ last, append_assoc]
      | some outcome =>
        obtain ⟨action, rfl⟩ := replyOutcome_ends known
        have whole := replyOutcome_mono known rest
        rw [append_assoc, singleton_append] at whole
        rw [feeds, feed, known, whole]
        change (feeds settings .finished rest).map _ = _
        rw [feeds_finished]
        rfl

def AwaitsReply (reader : Reader) (got : Bytes) : Prop :=
  ∃ size, Held reader got size ∧ got.length < size ∧ 5 ≤ size ∧ size ≤ replyLength got

theorem ensured_cases (held : Held reader got size) (five : 5 ≤ size)
    (bound : size ≤ replyLength got) {len : Nat} (needed : len ≤ replyLength got)
    (parse : Option Outcome) :
    (len ≤ got.length ∧ ensured reader len parse = parse) ∨
      (got.length < len ∧ ∃ next, ensured reader len parse = some (.waits next) ∧
        AwaitsReply next got) := by
  by_cases short : got.length < len
  · right
    have few : reader.readLen < len := by
      rw [held.counted]
      exact short
    refine ⟨short, ?_⟩
    by_cases small : reader.readBufLen < len
    · refine ⟨reader.realloc len, ?_, len, held.realloc (held.sized ▸ small), short, ?_, needed⟩
      · rw [ensured, s5EnsureBufferLength, if_pos few, if_pos small]
      · have := held.sized
        omega
    · refine ⟨reader, ?_, size, held, ?_, five, bound⟩
      · rw [ensured, s5EnsureBufferLength, if_pos few, if_neg small]
      · rw [← held.sized]
        omega
  · left
    have many : ¬reader.readLen < len := by
      rw [held.counted]
      exact short
    refine ⟨Nat.le_of_not_lt short, ?_⟩
    rw [ensured, s5EnsureBufferLength, if_neg many]

def ParsesReply (reader : Reader) (got : Bytes) : Prop :=
  (∃ outcome, replyOutcome got = some outcome ∧ parseReply reader = outcome) ∨
    (replyOutcome got = none ∧ ∃ next, parseReply reader = some (.waits next) ∧
      AwaitsReply next got)

theorem address_cases (held : Held reader got size) (five : 5 ≤ size)
    (bound : size ≤ replyLength got) {address : Nat} (port : address + 2 = replyLength got) :
    (got.length < replyLength got ∧
      ∃ next, ensured reader address (parsePort reader address) = some (.waits next) ∧
        AwaitsReply next got) ∨
      (¬got.length < replyLength got ∧
        ensured reader address (parsePort reader address) = some (.ends .connected)) := by
  rcases ensured_cases held five bound (by omega : address ≤ replyLength got)
      (parsePort reader address) with ⟨_, there⟩ | ⟨short, waiting⟩
  · rw [there, parsePort]
    rcases ensured_cases held five bound (by omega : address + 2 ≤ replyLength got)
        (some (.ends .connected)) with ⟨whole, passed⟩ | ⟨short, waiting⟩
    · exact Or.inr ⟨by omega, passed⟩
    · exact Or.inl ⟨by omega, waiting⟩
  · exact Or.inl ⟨by omega, waiting⟩

theorem parses_addressed {version status kind : UInt8} {parsed : Option Outcome}
    (first : got[0]? = some version) (second : got[1]? = some status)
    (fourth : got[3]? = some kind) (accepted : ¬(version ≠ 5 ∨ status ≠ 0))
    (addressed : kind = 1 ∨ kind = 3 ∨ kind = 4) (same : parseReply reader = parsed)
    (cases' : (got.length < replyLength got ∧ ∃ next, parsed = some (.waits next) ∧
        AwaitsReply next got) ∨
      (¬got.length < replyLength got ∧ parsed = some (.ends .connected))) :
    ParsesReply reader got := by
  have outcome : replyOutcome got =
      if got.length < replyLength got then none else some (some (.ends .connected)) := by
    unfold replyOutcome
    rw [first, second, fourth]
    dsimp only
    rw [if_neg accepted, if_pos addressed]
  rcases cases' with ⟨short, next, waiting, awaits⟩ | ⟨whole, ended⟩
  · exact Or.inr ⟨outcome.trans (if_pos short), next, same.trans waiting, awaits⟩
  · exact Or.inl ⟨_, outcome.trans (if_neg whole), same.trans ended⟩

theorem parseReply_cases (held : Held reader got size) (five : 5 ≤ size)
    (bound : size ≤ replyLength got) : ParsesReply reader got := by
  by_cases short : got.length < 4
  · have few : reader.readLen < 4 := by
      rw [held.counted]
      exact short
    have absent : got[3]? = none := getElem?_eq_none (by omega)
    refine Or.inr ⟨?_, reader, if_pos few, size, held, by omega, five, bound⟩
    unfold replyOutcome
    rw [absent]
    split
    · rename_i impossible
      cases impossible
    · rfl
  · have many : ¬reader.readLen < 4 := by
      rw [held.counted]
      exact short
    have first := getElem?_eq_getElem (by omega : 0 < got.length)
    have second := getElem?_eq_getElem (by omega : 1 < got.length)
    have fourth := getElem?_eq_getElem (by omega : 3 < got.length)
    generalize got[0] = version at first
    generalize got[1] = status at second
    generalize got[3] = kind at fourth
    have parsed : parseReply reader =
        if version ≠ 5 ∨ status ≠ 0 then refusal version status
        else if kind = 1 then ensured reader 8 (parsePort reader 8)
        else if kind = 3 then
          ensured reader 5 ((reader.byteAt 4).bind fun length =>
            ensured reader (5 + length.toNat) (parsePort reader (5 + length.toNat)))
        else if kind = 4 then ensured reader 20 (parsePort reader 20)
        else some (disconnect invalidText) := by
      rw [parseReply, if_neg many, held.byteAt, held.byteAt, first, second, held.byteAt, fourth]
      rfl
    by_cases refused : version ≠ 5 ∨ status ≠ 0
    · refine Or.inl ⟨_, ?_, parsed.trans (if_pos refused)⟩
      unfold replyOutcome
      rw [first, second, fourth]
      exact if_pos refused
    · rw [if_neg refused] at parsed
      by_cases four : kind = 1
      · rw [if_pos four] at parsed
        have length : 8 + 2 = replyLength got := by
          unfold replyLength
          rw [fourth]
          dsimp only
          rw [if_pos four]
        exact parses_addressed first second fourth refused (Or.inl four) parsed
          (address_cases held five bound length)
      · rw [if_neg four] at parsed
        by_cases name : kind = 3
        · rw [if_pos name] at parsed
          have length : replyLength got = 7 + (got[4]?.getD 0).toNat := by
            unfold replyLength
            rw [fourth]
            dsimp only
            rw [if_neg four, if_pos name]
          refine parses_addressed first second fourth refused (Or.inr (Or.inl name)) parsed ?_
          rcases ensured_cases held five bound (by omega : 5 ≤ replyLength got)
              ((reader.byteAt 4).bind fun length =>
                ensured reader (5 + length.toNat) (parsePort reader (5 + length.toNat)))
            with ⟨there, passed⟩ | ⟨missing, waiting⟩
          · have fifth := getElem?_eq_getElem (by omega : 4 < got.length)
            rw [fifth] at length
            rw [passed, held.byteAt, fifth, bind_some]
            refine address_cases held five bound ?_
            rw [length]
            change 5 + got[4].toNat + 2 = 7 + got[4].toNat
            omega
          · exact Or.inl ⟨by omega, waiting⟩
        · rw [if_neg name] at parsed
          by_cases six : kind = 4
          · rw [if_pos six] at parsed
            have length : 20 + 2 = replyLength got := by
              unfold replyLength
              rw [fourth]
              dsimp only
              rw [if_neg four, if_neg name]
            exact parses_addressed first second fourth refused (Or.inr (Or.inr six)) parsed
              (address_cases held five bound length)
          · rw [if_neg six] at parsed
            refine Or.inl ⟨_, ?_, parsed⟩
            unfold replyOutcome
            rw [first, second, fourth]
            dsimp only
            rw [if_neg refused, if_neg (by
              rintro (one | three | other)
              · exact four one
              · exact name three
              · exact six other)]

theorem parseReply_meets (some' : bytes ≠ []) (held : Held reader (got ++ bytes) size)
    (five : 5 ≤ size) (bound : size ≤ replyLength got)
    (fed : feeds settings (.reply got) bytes = some next) :
    ∃ outcome, parseReply reader = some outcome ∧ Meets .s5CanreadAgain outcome next := by
  rw [feeds_reply got some'] at fed
  rcases parseReply_cases held five (Nat.le_trans bound (replyLength_mono got bytes)) with
    ⟨outcome, known, parsed⟩ | ⟨unknown, waiting, parsed, size, kept, room, large, small⟩
  · obtain ⟨action, rfl⟩ := replyOutcome_ends known
    rw [known] at fed
    exact ⟨.ends action, parsed, fed⟩
  · rw [unknown] at fed
    cases fed
    exact ⟨.waits waiting, parsed, ⟨rfl, size, kept.ready, room, large, small⟩, rfl⟩

end Purple.Proxy
