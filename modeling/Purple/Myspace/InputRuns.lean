/-
The messages of a stream, however it is cut into reads.

What is read is split as the stream is, and the buffer grows with the message that is not
complete.  A message that its end marker does not frame, or that is too long for the
buffer, is not parsed by any session.
-/

import Purple.Framing
import Purple.Myspace.Input
import Purple.PartialRun

namespace Purple.Myspace

open List Option CString Memory Framing PartialRun

variable {base64 : Base64}

variable {session next : MsimSession}

theorem receive_stored {tail bytes : Bytes} (keeps : Keeps session tail)
    (inside : tail.length + bytes.length < session.rxsize) :
    ∃ stored : MsimSession, receive session bytes =
        finalRounds ((tail ++ bytes).length + 1) stored ∧
      Keeps stored (tail ++ bytes) ∧ stored.processed = session.processed ∧
      stored.rxsize = session.rxsize := by
  have front : tail.map some <+: session.rxbuf := (prefix_append _ _).trans keeps.held
  obtain ⟨filled, stored, sized, held⟩ := Block.store_after front (show _ + (bytes.map some).length ≤ _ by
    rw [length_map, length_map, keeps.sized]
    omega)
  obtain ⟨ended, stored', sized', held'⟩ := Block.store_after held (show _ + [some 0].length ≤ _ by
    rw [length_append, length_map, length_map, length_singleton, sized,
      keeps.sized]
    omega)
  rw [length_map] at stored
  rw [length_append, length_map, length_map] at stored'
  rw [← map_append] at held'
  have total : session.rxoff + bytes.length = (tail ++ bytes).length := by
    rw [keeps.counted, length_append]
  refine ⟨{ session with rxbuf := ended, rxoff := session.rxoff + bytes.length }, ?_,
    ⟨held', total, ?_⟩, rfl, rfl⟩
  · rw [receive, keeps.counted, stored, bind_some, stored', bind_some,
      length_append]
  · exact sized'.trans (sized.trans keeps.sized)

theorem text_noNul {msg : MsimMessage} (some' : msg ≠ []) : 0 ∉ text base64 msg := by
  rw [text_slashed base64 some', mem_append, not_or]
  refine ⟨?_, by decide⟩
  intro nul
  obtain ⟨token, member, inside⟩ := mem_flatMap.mp nul
  have here : 0 ∈ token := (mem_cons.mp inside).resolve_left (by decide)
  rw [body] at member
  split at member
  · rw [mem_singleton.mp member] at here
    exact absurd here not_mem_nil
  · obtain rfl | ⟨pair, among, rfl | rfl⟩ := mem_tokens member
    · exact absurd here not_mem_nil
    · exact (named_noNul base64 among).1 here
    · exact (named_noNul base64 among).2 here

/-- What `msim_msg_pack` serialises, with keys that have no backslash. -/
structure Sendable (msg : MsimMessage) : Prop where
  some' : msg ≠ []
  keys : PlainKeys msg

theorem stream_noNul {messages : List MsimMessage}
    (sendable : ∀ msg ∈ messages, Sendable msg) : 0 ∉ stream (text base64) messages := by
  intro nul
  obtain ⟨msg, member, inside⟩ := mem_flatMap.mp nul
  exact text_noNul (sendable msg member).some' inside

theorem strstr_incomplete {offset : Nat} {whole front : Bytes} (initial : front <+: whole)
    (marker : strstr finalString whole = some offset)
    (short : front.length < offset + finalString.length) : strstr finalString front = none := by
  cases found : strstr finalString front with
  | none => rfl
  | some earlier =>
    obtain ⟨more, rfl⟩ := initial
    have again := strstr_append found more
    rw [marker] at again
    cases again
    have bound := strstr_bound found
    omega

theorem finalRounds_framed {later : List MsimMessage} (sendable : ∀ msg ∈ later, Sendable msg)
    (framed : ∀ msg ∈ later, Framed base64 msg) {rest : Bytes}
    (arrived : rest <+: stream (text base64) later) (keeps : Keeps session rest) {rounds : Nat}
    (enough : rest.length < rounds) :
    ∃ next, finalRounds rounds session = some next ∧
      Keeps next (unconsumed (text base64) later rest) ∧
      next.processed = session.processed ++ (complete (text base64) later rest).map
        (unpacked base64) ∧ next.rxsize = session.rxsize := by
  have clean : 0 ∉ rest := fun nul => stream_noNul sendable (arrived.subset nul)
  induction later generalizing rest session rounds with
  | nil =>
    obtain ⟨rounds, rfl⟩ := Nat.exists_eq_succ_of_ne_zero (Nat.ne_of_gt (Nat.zero_lt_of_lt enough))
    have nothing : rest = [] := prefix_nil.mp arrived
    have absent : strstr finalString (cString rest) = none := by
      rw [nothing]
      rfl
    rw [finalRounds, finalRound_none keeps.held absent]
    exact ⟨session, rfl, keeps, (append_nil _).symm, rfl⟩
  | cons msg later ih =>
    rw [forall_mem_cons] at sendable framed
    obtain ⟨rounds, rfl⟩ := Nat.exists_eq_succ_of_ne_zero (Nat.ne_of_gt (Nat.zero_lt_of_lt enough))
    obtain ⟨before, split, marker, parsed⟩ :=
      framed_text sendable.1.some' sendable.1.keys framed.1
    by_cases whole : (text base64 msg).length ≤ rest.length
    · obtain ⟨behind, rfl, front⟩ := arrived_whole arrived whole
      have something : msimParse before ≠ [] := by
        rw [parsed, unpacked]
        exact fun empty => framed.1.some' (map_eq_nil_iff.mp empty)
      have marker' := strstr_append marker behind
      rw [split] at keeps clean marker'
      obtain ⟨next, done, left, more, size⟩ := finalRound_message keeps clean marker' something
      rw [split] at enough
      have shorter : behind.length < rounds := by
        rw [length_append, length_append] at enough
        have seven : finalString.length = 7 := rfl
        omega
      obtain ⟨last, finished, kept, all, size'⟩ := ih sendable.2 framed.2 front left shorter
        (fun nul => clean (mem_append_right _ nul))
      refine ⟨last, ?_, ?_, ?_, size'.trans size⟩
      · rw [finalRounds, done]
        exact finished
      · rw [unconsumed, if_pos whole, drop_left' rfl]
        exact kept
      · rw [complete, if_pos whole, drop_left' rfl, all, more, parsed, map_cons,
          append_assoc, singleton_append]
    · have initial : rest <+: text base64 msg := by
        rw [stream_cons] at arrived
        exact prefix_of_prefix_length_le arrived (prefix_append _ _) (by omega)
      have absent : strstr finalString (cString rest) = none := by
        rw [cString_clean clean]
        refine strstr_incomplete initial marker ?_
        rw [split, length_append] at whole
        omega
      rw [finalRounds, finalRound_none keeps.held absent, complete, if_neg whole, unconsumed,
        if_neg whole]
      exact ⟨session, rfl, keeps, (append_nil _).symm, rfl⟩

theorem moveRemaining_size {fin : Nat} {raw : Bytes}
    (done : moveRemaining session fin raw = some next) : next.rxsize = session.rxsize := by
  unfold moveRemaining at done
  dsimp only at done
  split at done
  · cases done
  · obtain ⟨rxbuf, _, rfl⟩ := map_eq_some_iff.mp done
    rfl

theorem finalRound_size {again : Bool} (done : finalRound session = some (again, next)) :
    next.rxsize = session.rxsize := by
  unfold finalRound at done
  obtain ⟨string, _, done⟩ := bind_eq_some_iff.mp done
  split at done
  · cases done
    rfl
  · obtain ⟨rxbuf, _, done⟩ := bind_eq_some_iff.mp done
    obtain ⟨raw, _, done⟩ := bind_eq_some_iff.mp done
    split at done
    · cases done
      rfl
    · obtain ⟨moved, done, same⟩ := map_eq_some_iff.mp done
      cases same
      exact (moveRemaining_size done).trans rfl

theorem finalRounds_size {rounds : Nat} (done : finalRounds rounds session = some next) :
    next.rxsize = session.rxsize := by
  induction rounds generalizing session with
  | zero => cases done
  | succ rounds ih =>
    obtain ⟨⟨again, middle⟩, round, done⟩ := bind_eq_some_iff.mp done
    have size := finalRound_size round
    cases again with
    | false =>
      cases done
      exact size
    | true => exact (ih done).trans size

theorem receive_size {bytes : Bytes} (done : receive session bytes = some next) :
    next.rxsize = session.rxsize := by
  obtain ⟨rxbuf, _, done⟩ := bind_eq_some_iff.mp done
  dsimp only at done
  exact (finalRounds_size done).trans rfl

inductive Reads (most : Nat) (wire next : Wire) : Prop where
  | grows (small : full wire.session = true) (grown : growRxbuf wire.session = some next.session)
      (socket : next.socket = wire.socket) (received : next.received = wire.received)
  | nothing (large : full wire.session = false) (same : next = wire)
      (empty : wire.socket.take (min most (room wire.session)) = [])
  | takes (large : full wire.session = false) (bytes : Bytes) (some' : bytes ≠ [])
      (fits : bytes.length ≤ room wire.session) (done : receive wire.session bytes = some next.session)
      (socket : wire.socket = bytes ++ next.socket) (received : next.received = wire.received ++ bytes)

theorem readable_reads {wire next : Wire} {most : Nat}
    (stepped : step wire (.readable most) = some next) : Reads most wire next := by
  obtain ⟨session, done, rfl⟩ := map_eq_some_iff.mp stepped
  unfold taken at done ⊢
  unfold msimInputCb at done
  cases small : full wire.session with
  | true =>
    rw [small, if_pos rfl] at done
    rw [if_pos rfl]
    exact Reads.grows small done rfl (append_nil _)
  | false =>
    rw [small, if_neg Bool.false_ne_true, if_neg Bool.false_ne_true] at done
    rw [if_neg Bool.false_ne_true]
    by_cases none' : wire.socket.take (min most (room wire.session)) = []
    · rw [if_pos none'] at done
      cases done
      refine Reads.nothing small ?_ none'
      rw [none', length_nil, drop_zero, append_nil]
    · rw [if_neg none'] at done
      refine Reads.takes small _ none' ?_ done ?_ rfl
      · rw [length_take]
        omega
      · exact (prefix_iff_eq_append.mp ( take_prefix _ _)).symm

end Purple.Myspace
