/-
The input buffer over every way of cutting a stream into reads.

Between two reads the buffer holds the unfinished line at its front, and its size is a
multiple of the step by which it grows.
-/

import Purple.Irc.InputLines

namespace Purple.Irc

open List Option Memory CString PartialRun

structure Keeps (irc : IrcConn) (tail : Bytes) : Prop where
  used : irc.inbufused = tail.length
  held : tail.map some <+: irc.inbuf
  allocated : irc.inbuf.length = irc.inbuflen
  stepped : ircInitialBufsize ∣ irc.inbuflen
  fits : irc.inbuflen ≤ intMax
  terminated : tail ≠ [] → tail.length < irc.inbuflen

def longestTail : Nat := 2 ^ 31 - 2 * ircInitialBufsize

variable {irc : IrcConn} {tail : Bytes} {front : Block UInt8}

theorem growInbuf_room (keeps : Keeps irc tail) (short : tail.length ≤ longestTail) :
    ∃ grown, growInbuf irc = some grown ∧ Keeps grown tail ∧
      tail.length + ircInitialBufsize ≤ grown.inbuflen ∧ grown.parsed = irc.parsed := by
  obtain ⟨used, held, allocated, stepped, fits, terminated⟩ := keeps
  by_cases small : irc.inbuflen < irc.inbufused + ircInitialBufsize
  · have bound : ¬intMax < irc.inbuflen + ircInitialBufsize := by
      obtain ⟨blocks, size⟩ := stepped
      simp only [ircInitialBufsize, intMax, longestTail] at *
      omega
    have enough : tail.length ≤ irc.inbuflen := by
      have := held.length_le
      rw [length_map, allocated] at this
      exact this
    refine ⟨{ irc with
        inbuflen := irc.inbuflen + ircInitialBufsize
        inbuf := irc.inbuf.realloc (irc.inbuflen + ircInitialBufsize) },
      by rw [growInbuf, if_pos small, if_neg bound], ⟨used, ?_, ?_, ?_, ?_, ?_⟩, ?_, rfl⟩
    · refine Block.prefix_realloc held ?_
      rw [length_map]
      exact Nat.le_trans enough (Nat.le_add_right _ _)
    · exact Block.realloc_length _ _
    · exact Nat.dvd_add stepped (Nat.dvd_refl _)
    · exact Nat.le_of_not_lt bound
    · intro some'
      exact Nat.lt_of_lt_of_le (terminated some') (Nat.le_add_right _ _)
    · change tail.length + ircInitialBufsize ≤ irc.inbuflen + ircInitialBufsize
      exact Nat.add_le_add_right enough _
  · refine ⟨irc, by rw [growInbuf, if_neg small],
      ⟨used, held, allocated, stepped, fits, terminated⟩, ?_, rfl⟩
    rw [← used]
    exact Nat.le_of_not_lt small

theorem growInbuf_overflow (keeps : Keeps irc tail) (long : longestTail < tail.length) :
    growInbuf irc = none := by
  obtain ⟨used, held, allocated, ⟨blocks, size⟩, fits, terminated⟩ := keeps
  have some' : tail ≠ [] := by
    rintro rfl
    exact Nat.not_lt_zero _ long
  have enough := terminated some'
  simp only [ircInitialBufsize, intMax, longestTail] at *
  have small : irc.inbuflen < irc.inbufused + ircInitialBufsize := by
    rw [ircInitialBufsize]
    omega
  have bound : intMax < irc.inbuflen + ircInitialBufsize := by
    rw [ircInitialBufsize, intMax]
    omega
  rw [growInbuf, if_pos small, if_pos bound]

/-- The buffer from `cur` on: what was not taken yet, and the NUL behind it. -/
def HoldsFrom (irc : IrcConn) (front : Block UInt8) (rest : Bytes) : Prop :=
  ∃ behind, irc.inbuf = front ++ rest.map some ++ some 0 :: behind

theorem holdsFrom_string {rest : Bytes} (holds : HoldsFrom irc front rest) (noNul : 0 ∉ rest) :
    blockString (irc.inbuf.drop front.length) = some rest := by
  obtain ⟨behind, cells⟩ := holds
  rw [cells, append_assoc, drop_left' rfl,
    @ blockString_of_prefix _ rest, cString_clean noNul]
  exact ⟨behind, by rw [append_assoc]; rfl⟩

structure Scanning (irc : IrcConn) (front : Block UInt8) (rest : Bytes) : Prop where
  holds : HoldsFrom irc front rest
  used : irc.inbufused = front.length + rest.length

theorem lineRound_found {text behind : Bytes} {first : UInt8} {more : Bytes}
    (scanning : Scanning irc front (text ++ first :: (more ++ behind)))
    (noNul : 0 ∉ text ++ first :: (more ++ behind))
    (found : lineEnd (text ++ first :: (more ++ behind)) = some (text.length, more.length + 1)) :
    ∃ next further, lineRound front.length irc =
        some (some (further.length, ircParseMsg next text)) ∧
      Scanning (ircParseMsg next text) further behind ∧ next.parsed = irc.parsed ∧
      next.inbuf.length = irc.inbuf.length ∧ next.inbuflen = irc.inbuflen := by
  obtain ⟨⟨after, cells⟩, used⟩ := scanning
  have string := holdsFrom_string ⟨after, cells⟩ noNul
  have inside : front.length < irc.inbufused := by
    rw [used, length_append, length_cons]
    omega
  have stored := Block.store_cell (front ++ text.map some)
    (more.map some ++ behind.map some ++ some 0 :: after) (some first) (some 0)
  have whole : irc.inbuf = (front ++ text.map some) ++
      some first :: (more.map some ++ behind.map some ++ some 0 :: after) := by
    rw [cells]
    simp only [map_append, map_cons, append_assoc, cons_append]
  have offset : (front ++ text.map some).length = front.length + text.length := by
    rw [length_append, length_map]
  rw [← whole, offset] at stored
  have textClean : 0 ∉ text := fun member => noNul (mem_append_left _ member)
  have line : blockString (((front ++ text.map some) ++
      some 0 :: (more.map some ++ behind.map some ++ some 0 :: after)).drop front.length) =
        some text := by
    rw [append_assoc, drop_left' rfl,
      @ blockString_of_prefix _ text, cString_clean textClean]
    exact ⟨more.map some ++ behind.map some ++ some 0 :: after, by rw [append_assoc]; rfl⟩
  refine ⟨{ irc with
        inbuf := (front ++ text.map some) ++
          some 0 :: (more.map some ++ behind.map some ++ some 0 :: after) },
    front ++ text.map some ++ some 0 :: more.map some, ?_, ⟨⟨after, ?_⟩, ?_⟩, rfl, ?_, rfl⟩
  · have taken : (front ++ text.map some ++ some 0 :: more.map some).length =
        front.length + text.length + (more.length + 1) := by
      rw [length_append, offset, length_cons, length_map]
    rw [taken, lineRound, if_pos inside, string, bind_some, found, elim_some, stored,
      bind_some, line]
    rfl
  · change (front ++ text.map some) ++ some 0 :: _ = _
    simp only [append_assoc, cons_append]
  · change irc.inbufused = _
    rw [used]
    simp only [length_append, length_cons, length_map]
    omega
  · change ((front ++ text.map some) ++ some 0 :: _).length = _
    rw [whole]
    simp only [length_append, length_cons]

theorem lineRound_none {rest : Bytes} (scanning : Scanning irc front rest) (noNul : 0 ∉ rest)
    (absent : lineEnd rest = none) : lineRound front.length irc = some none := by
  rw [lineRound, holdsFrom_string scanning.holds noNul, bind_some, absent]
  exact ite_self _

theorem lineRounds_splits {rest : Bytes} (rounds : Nat) (enough : rest.length < rounds)
    (scanning : Scanning irc front rest) (noNul : 0 ∉ rest) :
    ∃ last further passed left, lineRounds rounds front.length irc = some (further.length, last) ∧
      Scanning last further left ∧ Splits rest passed left ∧
      last.parsed = irc.parsed ++ passed ∧ last.inbuf.length = irc.inbuf.length ∧
      last.inbuflen = irc.inbuflen := by
  induction rounds generalizing irc front rest with
  | zero => exact absurd enough (Nat.not_lt_zero _)
  | succ rounds ih =>
    rw [lineRounds]
    cases lineEnd_found rest with
    | nothing absent inside =>
      rw [lineRound_none scanning noNul absent]
      exact ⟨irc, front, [], rest, rfl, scanning, splits_nothing inside,
        (append_nil _).symm, rfl, rfl⟩
    | both text behind split found first =>
      have shape : rest = text ++ 13 :: ([10] ++ behind) := by
        rw [split, append_assoc]
        rfl
      have size : rest.length = text.length + 2 + behind.length := by
        rw [split, length_append, length_append]
        rfl
      rw [shape] at scanning noNul found
      obtain ⟨next, further, round, later, same, sized, grown⟩ :=
        lineRound_found scanning noNul found
      obtain ⟨last, final, passed, left, ran, state, splits, parsed, length, buflen⟩ :=
        ih (by omega) later fun member =>
          noNul (mem_append_right text (by simp [member]))
      refine ⟨last, final, text :: passed, left, ?_, state, ?_, ?_, length.trans sized,
        buflen.trans grown⟩
      · rw [round]
        exact ran
      · rw [split]
        exact splits_both first splits
      · rw [parsed, ← same, append_cons]
        rfl
    | alone text behind split found inside never =>
      have shape : rest = text ++ 10 :: ([] ++ behind) := split
      have size : rest.length = text.length + 1 + behind.length := by
        rw [split, length_append, length_cons]
        omega
      rw [shape] at scanning noNul found
      obtain ⟨next, further, round, later, same, sized, grown⟩ :=
        lineRound_found scanning noNul found
      obtain ⟨last, final, passed, left, ran, state, splits, parsed, length, buflen⟩ :=
        ih (by omega) later fun member =>
          noNul (mem_append_right text (by simp [member]))
      refine ⟨last, final, text :: passed, left, ?_, state, ?_, ?_, length.trans sized,
        buflen.trans grown⟩
      · rw [round]
        exact ran
      · rw [split] at never ⊢
        exact splits_alone inside never splits
      · rw [parsed, ← same, append_cons]
        rfl

theorem skipNuls_clean {bytes : Bytes} {block : Block UInt8} (some' : bytes ≠ [])
    (noNul : 0 ∉ bytes) (held : bytes.map some <+: block) (left : Nat) :
    skipNuls (left + 1) block = some 0 := by
  obtain ⟨behind, rfl⟩ := held
  cases bytes with
  | nil => exact absurd rfl some'
  | cons byte rest =>
    have solid : byte ≠ 0 := fun nul => noNul (nul ▸ mem_cons_self)
    rw [map_cons, cons_append, skipNuls, if_neg solid]

theorem keepLeftover_kept {left : Bytes} (scanning : Scanning irc front left) :
    ∃ next, keepLeftover front.length irc = some next ∧ next.inbufused = left.length ∧
      left.map some <+: next.inbuf ∧ next.inbuf.length = irc.inbuf.length ∧
      next.inbuflen = irc.inbuflen ∧ next.parsed = irc.parsed := by
  obtain ⟨⟨behind, cells⟩, used⟩ := scanning
  have size : irc.inbufused - front.length = left.length := by omega
  by_cases moved : front.length ≠ irc.inbufused
  · have loaded : irc.inbuf.load front.length left.length = some (left.map some) := by
      have inFront := Block.load_front front (left.map some)
        (cells ▸ prefix_append (front ++ left.map some) (some 0 :: behind))
      rw [length_map] at inFront
      exact inFront
    have room : 0 + (left.map some).length ≤ irc.inbuf.length := by
      rw [cells, length_append, length_append]
      omega
    obtain ⟨inbuf, stored, length, longer⟩ :=
      @Block.store_after _ irc.inbuf [] (left.map some) nil_prefix room
    have kept : keepLeftover front.length irc =
        some { irc with inbuf, inbufused := left.length } := by
      simp only [keepLeftover, if_pos moved, size, loaded, bind_some]
      exact congrArg (Option.map _) stored
    exact ⟨_, kept, rfl, longer, length, rfl, rfl⟩
  · have nothing : left = [] := by
      apply length_eq_zero_iff.mp
      omega
    have kept : keepLeftover front.length irc = some { irc with inbufused := 0 } := if_neg moved
    rw [nothing]
    exact ⟨_, kept, rfl, nil_prefix, rfl, rfl, rfl⟩

theorem readInput_splits {irc : IrcConn} {tail data : Bytes} (some' : data ≠ [])
    (noNul : 0 ∉ tail ++ data) (used : irc.inbufused = tail.length)
    (held : (tail ++ data).map some <+: irc.inbuf)
    (room : (tail ++ data).length < irc.inbuf.length) :
    ∃ next passed left, readInput irc data.length = some next ∧ Splits (tail ++ data) passed left ∧
      next.parsed = irc.parsed ++ passed ∧ next.inbufused = left.length ∧
      left.map some <+: next.inbuf ∧ next.inbuf.length = irc.inbuf.length ∧
      next.inbuflen = irc.inbuflen := by
  have total : irc.inbufused + data.length = ((tail ++ data).map some).length := by
    rw [used, length_map, length_append]
  obtain ⟨stored, done, length, terminated⟩ := @Block.store_after _ _ _ [some 0] held (by
    rw [length_map]
    exact room)
  obtain ⟨behind, cells⟩ := terminated
  have scanning : Scanning { irc with inbuf := stored, inbufused := irc.inbufused + data.length } []
      (tail ++ data) := by
    refine ⟨⟨behind, ?_⟩, ?_⟩
    · change stored = _
      rw [← cells, append_assoc]
      rfl
    · change irc.inbufused + data.length = 0 + _
      rw [total, length_map, Nat.zero_add]
  obtain ⟨last, further, passed, left, ran, state, splits, parsed, sized, grown⟩ :=
    lineRounds_splits (irc.inbufused + data.length + 1)
      (by rw [total, length_map]; exact Nat.lt_succ_self _) scanning noNul
  obtain ⟨next, kept, nextUsed, nextHeld, nextLength, nextGrown, nextParsed⟩ :=
    keepLeftover_kept state
  have positive : irc.inbufused + data.length ≠ 0 := by
    have := length_pos_of_ne_nil some'
    omega
  obtain ⟨others, count⟩ := Nat.exists_eq_succ_of_ne_zero positive
  have skipped : skipNuls (irc.inbufused + data.length) stored = some 0 := by
    rw [count]
    refine skipNuls_clean (append_ne_nil_of_right_ne_nil tail some') noNul ?_ others
    exact ⟨some 0 :: behind, by rw [← cells, append_assoc]; rfl⟩
  refine ⟨next, passed, left, ?_, splits, nextParsed.trans parsed, nextUsed, nextHeld,
    nextLength.trans (sized.trans length), nextGrown.trans grown⟩
  rw [← total] at done
  simp only [readInput, done, bind_some, skipped]
  change (lineRounds _ ([] : Block UInt8).length _).bind _ = _
  rw [ran]
  exact kept

theorem ircInputCb_data {data : Bytes} (keeps : Keeps irc tail)
    (short : tail.length ≤ longestTail) (noNul : 0 ∉ tail ++ data) (some' : data ≠ [])
    (small : data.length ≤ ircInitialBufsize - 1) :
    ∃ next passed left, ircInputCb irc (.data data some' small) = some next ∧
      Splits (tail ++ data) passed left ∧ next.parsed = irc.parsed ++ passed ∧
      Keeps next left := by
  obtain ⟨grown, growth, ⟨used, held, allocated, stepped, fits, _⟩, room, same⟩ :=
    growInbuf_room keeps short
  have space : tail.length + data.length < grown.inbuf.length := by
    rw [allocated]
    simp only [ircInitialBufsize] at room small
    omega
  obtain ⟨stored, done, length, longer⟩ := @Block.store_after _ _ _ (data.map some) held (by
    rw [length_map, length_map]
    exact Nat.le_of_lt space)
  rw [length_map, ← used] at done
  rw [← map_append] at longer
  obtain ⟨next, passed, left, read, splits, parsed, nextUsed, nextHeld, nextLength, nextGrown⟩ :=
    @readInput_splits { grown with inbuf := stored } tail data some' noNul used longer (by
      rw [length_append]
      exact Nat.lt_of_lt_of_eq space length.symm)
  have bound : left.length < next.inbuflen := by
    have := splits.behind.length_le
    rw [length_append] at this
    rw [nextGrown]
    change left.length < grown.inbuflen
    omega
  refine ⟨next, passed, left, ?_, splits, ?_, nextUsed, nextHeld, ?_, ?_, ?_, fun _ => bound⟩
  · rw [ircInputCb, growth]
    simp only [bind_some, done]
    exact read
  · rw [parsed, ← same]
  · rw [nextLength, nextGrown]
    exact length.trans allocated
  · rw [nextGrown]
    exact stepped
  · rw [nextGrown]
    exact fits

theorem ircInputCb_again (keeps : Keeps irc tail) (short : tail.length ≤ longestTail) :
    ∃ next, ircInputCb irc .again = some next ∧ next.parsed = irc.parsed ∧ Keeps next tail := by
  obtain ⟨grown, growth, kept, _, same⟩ := growInbuf_room keeps short
  exact ⟨grown, by rw [ircInputCb, growth]; rfl, same, kept⟩

theorem ircInputCb_overflow (keeps : Keeps irc tail) (long : longestTail < tail.length)
    (reading : Reading) : ircInputCb irc reading = none := by
  rw [ircInputCb, growInbuf_overflow keeps long]
  rfl

end Purple.Irc
