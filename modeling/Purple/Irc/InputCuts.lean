/-
Every two ways of cutting a stream into reads, and the streams for which they agree.
-/

import Purple.Irc.InputReads

namespace Purple.Irc

open List Option Memory CString PartialRun

def Reading.bytes : Reading → Bytes
  | .data bytes _ _ => bytes
  | .again => []
  | .failed => []
  | .closed => []

def Reading.Succeeds : Reading → Prop
  | .data _ _ _ => True
  | .again => True
  | .failed => False
  | .closed => False

structure Cuts (stream : Bytes) (readings : List Reading) : Prop where
  succeed : ∀ reading ∈ readings, reading.Succeeds
  joined : readings.flatMap Reading.bytes = stream

/-- The connection after so many bytes, if they were split into their lines. -/
structure SplitAt (stream : Bytes) (irc : IrcConn) : Prop where
  parsed : irc.parsed = lines [] stream
  keeps : Keeps irc (unfinished [] stream)

/-- Every way of cutting the stream gives its lines and keeps its unfinished tail. -/
def SplitsAlike (stream : Bytes) : Prop :=
  ∀ readings, Cuts stream readings →
    ∃ irc, run ircInputCb IrcConn.start readings = some irc ∧ SplitAt stream irc

/-- A line that ends with a bare line feed and one that ends with both, whose ends fit
in one read. -/
def MixesInRead (stream : Bytes) : Prop :=
  ∃ front middle behind, stream = front ++ 10 :: (middle ++ crlf ++ behind) ∧
    front.getLast? ≠ some 13 ∧ (10 :: (middle ++ crlf)).length ≤ ircInitialBufsize - 1

/-- No unfinished line on the way is too long for the `int` that holds the size. -/
def ShortLines (stream : Bytes) : Prop :=
  ∀ front, front <+: stream → (unfinished [] front).length ≤ longestTail

theorem splitAt_start : SplitAt [] IrcConn.start :=
  ⟨rfl, rfl, nil_prefix, rfl, Nat.dvd_zero _, Nat.zero_le _, fun impossible => absurd rfl impossible⟩

theorem mixes_read {tail data : Bytes} (inside : 10 ∉ tail) (mixes : Mixes (tail ++ data)) :
    ∃ front middle behind, data = front ++ 10 :: (middle ++ crlf ++ behind) ∧
      (tail ++ front).getLast? ≠ some 13 := by
  obtain ⟨front, middle, behind, same, alone⟩ := mixes
  rcases append_eq_append_iff.mp same with ⟨between, longer, rest⟩ | ⟨between, shorter, rest⟩
  · exact ⟨between, middle, behind, rest, longer ▸ alone⟩
  · cases between with
    | nil =>
      rw [append_nil] at shorter
      refine ⟨[], middle, behind, rest.symm, ?_⟩
      rw [append_nil, shorter]
      exact alone
    | cons byte between =>
      obtain ⟨feed, _⟩ := List.cons.inj rest
      exfalso
      apply inside
      rw [shorter, ← feed]
      exact mem_append_right front mem_cons_self

theorem return_ends_unfinished (past more : Bytes) :
    (past ++ more).getLast? = some 13 ↔ (unfinished [] past ++ more).getLast? = some 13 := by
  obtain ⟨ended, split, last⟩ := unfinished_suffix past
  generalize tail : unfinished [] past ++ more = rest
  have whole : past ++ more = ended ++ rest := by
    rw [← tail, ← append_assoc, ← split]
  rw [whole]
  by_cases nothing : rest = []
  · rw [nothing, append_nil]
    rcases last with empty | feed
    · rw [empty]
    · rw [feed]
      exact iff_of_false (by decide) (by decide)
  · rw [getLast?_behind ended nothing]

theorem mixesInRead_of_mixes {past data : Bytes} (behind : Bytes)
    (small : data.length ≤ ircInitialBufsize - 1) (mixes : Mixes (unfinished [] past ++ data)) :
    MixesInRead (past ++ data ++ behind) := by
  obtain ⟨front, middle, more, rfl, alone⟩ := mixes_read (lines_clean not_mem_nil past).2 mixes
  refine ⟨past ++ front, middle, more ++ behind, by simp, ?_, ?_⟩
  · exact fun last => alone ((return_ends_unfinished past front).mp last)
  · simp only [length_append, length_cons] at small ⊢
    omega

theorem mixes_single {tail : Bytes} (inside : 10 ∉ tail) (byte : UInt8) : ¬Mixes (tail ++ [byte]) := by
  intro mixes
  obtain ⟨front, middle, behind, same, _⟩ := mixes_read inside mixes
  have length := congrArg List.length same
  simp only [crlf, length_append, length_cons, length_nil] at length
  omega

theorem splitAt_data {past data : Bytes} {irc : IrcConn} (at' : SplitAt past irc)
    (short : (unfinished [] past).length ≤ longestTail) (noNul : 0 ∉ past ++ data)
    (some' : data ≠ []) (small : data.length ≤ ircInitialBufsize - 1)
    (apart : ¬Mixes (unfinished [] past ++ data)) :
    ∃ next, ircInputCb irc (.data data some' small) = some next ∧ SplitAt (past ++ data) next := by
  have clean : 0 ∉ unfinished [] past ++ data := by
    intro member
    rcases mem_append.mp member with before | new
    · exact noNul (mem_append_left data (unfinished_sub before))
    · exact noNul (mem_append_right past new)
  obtain ⟨next, passed, left, stepped, splits, parsed, keeps⟩ :=
    ircInputCb_data at'.keeps short clean some' small
  obtain ⟨same, rest⟩ := splits.faithful apart
  obtain ⟨noLine, begun⟩ := lines_inside [] (lines_clean not_mem_nil past).2
  rw [lines_append, noLine, begun] at same
  rw [unfinished_append, begun] at rest
  refine ⟨next, stepped, ?_, ?_⟩
  · rw [parsed, at'.parsed, same, lines_append]
    rfl
  · rw [unfinished_append]
    exact rest ▸ keeps

theorem run_split {past : Bytes} {irc : IrcConn} (readings : List Reading)
    (at' : SplitAt past irc) (succeed : ∀ reading ∈ readings, reading.Succeeds)
    (noNul : 0 ∉ past ++ readings.flatMap Reading.bytes)
    (short : ShortLines (past ++ readings.flatMap Reading.bytes))
    (apart : ¬MixesInRead (past ++ readings.flatMap Reading.bytes)) :
    ∃ last, run ircInputCb irc readings = some last ∧
      SplitAt (past ++ readings.flatMap Reading.bytes) last := by
  induction readings generalizing past irc with
  | nil => exact ⟨irc, rfl, (append_nil past).symm ▸ at'⟩
  | cons reading readings ih =>
    have fits := short past (prefix_append past _)
    obtain ⟨succeeds, later⟩ := forall_mem_cons.mp succeed
    rw [flatMap_cons, ← append_assoc] at noNul short apart ⊢
    have follows : ∃ next, ircInputCb irc reading = some next ∧
        SplitAt (past ++ reading.bytes) next := by
      cases reading with
      | data data some' small =>
        exact splitAt_data at' fits (fun member => noNul (mem_append_left _ member)) some'
          small fun mixes => apart (mixesInRead_of_mixes _ small mixes)
      | again =>
        obtain ⟨next, stepped, same, keeps⟩ := ircInputCb_again at'.keeps fits
        refine ⟨next, stepped, ?_⟩
        rw [Reading.bytes, append_nil]
        exact ⟨same.trans at'.parsed, keeps⟩
      | failed => exact succeeds.elim
      | closed => exact succeeds.elim
    obtain ⟨next, stepped, after⟩ := follows
    obtain ⟨last, ran, split⟩ := ih after later noNul short apart
    exact ⟨last, by rw [run_cons, stepped]; exact ran, split⟩

theorem single_short (byte : UInt8) : [byte].length ≤ ircInitialBufsize - 1 := by
  rw [length_singleton, ircInitialBufsize]
  omega

def singles (bytes : Bytes) : List Reading :=
  bytes.map fun byte => .data [byte] (cons_ne_nil byte []) (single_short byte)

theorem singles_bytes (bytes : Bytes) : (singles bytes).flatMap Reading.bytes = bytes := by
  induction bytes with
  | nil => rfl
  | cons byte rest ih =>
    change byte :: (singles rest).flatMap Reading.bytes = byte :: rest
    rw [ih]

theorem singles_succeed (bytes : Bytes) : ∀ reading ∈ singles bytes, reading.Succeeds := by
  intro reading member
  obtain ⟨byte, _, rfl⟩ := List.mem_map.mp member
  trivial

theorem run_singles {past last : Bytes} {irc next : IrcConn} (at' : SplitAt past irc)
    (noNul : 0 ∉ past ++ last) (ran : run ircInputCb irc (singles last) = some next) :
    SplitAt (past ++ last) next := by
  induction last generalizing past irc with
  | nil =>
    cases ran
    exact (append_nil past).symm ▸ at'
  | cons byte rest ih =>
    have split : past ++ byte :: rest = (past ++ [byte]) ++ rest := append_cons past byte rest
    rw [split] at noNul ⊢
    obtain ⟨middle, stepped, later⟩ := bind_eq_some_iff.mp ran
    refine ih ?_ noNul later
    by_cases short : (unfinished [] past).length ≤ longestTail
    · obtain ⟨other, same, after⟩ := splitAt_data at' short
        (fun member => noNul (mem_append_left rest member)) (cons_ne_nil byte [])
        (single_short byte) (mixes_single (lines_clean not_mem_nil past).2 byte)
      cases same.symm.trans stepped
      exact after
    · rw [ircInputCb_overflow at'.keeps (Nat.lt_of_not_le short)] at stepped
      cases stepped

theorem run_parsed {tail : Bytes} {irc last : IrcConn} (readings : List Reading)
    (keeps : Keeps irc tail) (noNul : 0 ∉ tail ++ readings.flatMap Reading.bytes)
    (ran : run ircInputCb irc readings = some last)
    (succeed : ∀ reading ∈ readings, reading.Succeeds) : irc.parsed <+: last.parsed := by
  induction readings generalizing tail irc with
  | nil =>
    cases ran
    exact prefix_refl _
  | cons reading readings ih =>
    obtain ⟨succeeds, later⟩ := forall_mem_cons.mp succeed
    obtain ⟨middle, stepped, rest⟩ := bind_eq_some_iff.mp ran
    rw [flatMap_cons, ← append_assoc] at noNul
    by_cases short : tail.length ≤ longestTail
    · cases reading with
      | data data some' small =>
        obtain ⟨next, passed, left, same, splits, parsed, kept⟩ := ircInputCb_data keeps short
          (fun member => noNul (mem_append_left _ member)) some' small
        cases same.symm.trans stepped
        refine List.IsPrefix.trans ⟨passed, parsed.symm⟩ (ih kept ?_ rest later)
        intro member
        apply noNul
        rcases mem_append.mp member with before | new
        · exact mem_append_left _ (splits.behind.subset before)
        · exact mem_append_right _ new
      | again =>
        obtain ⟨next, same, parsed, kept⟩ := ircInputCb_again keeps short
        cases same.symm.trans stepped
        rw [Reading.bytes, append_nil] at noNul
        rw [← parsed]
        exact ih kept noNul rest later
      | failed => exact succeeds.elim
      | closed => exact succeeds.elim
    · rw [ircInputCb_overflow keeps (Nat.lt_of_not_le short)] at stepped
      cases stepped

theorem cuts_around {front data behind : Bytes} {reading : Reading} (bytes : reading.bytes = data)
    (succeeds : reading.Succeeds) :
    Cuts (front ++ data ++ behind) (singles front ++ reading :: singles behind) := by
  constructor
  · intro other member
    rcases mem_append.mp member with before | rest
    · exact singles_succeed front other before
    · rcases mem_cons.mp rest with same | after
      · exact same ▸ succeeds
      · exact singles_succeed behind other after
  · rw [flatMap_append, flatMap_cons, singles_bytes, singles_bytes, bytes,
      ← append_assoc]

theorem alike_around {front data behind : Bytes} {reading : Reading}
    (alike : SplitsAlike (front ++ data ++ behind)) (noNul : 0 ∉ front ++ data ++ behind)
    (bytes : reading.bytes = data) (succeeds : reading.Succeeds) :
    ∃ before after last, SplitAt front before ∧ ircInputCb before reading = some after ∧
      run ircInputCb after (singles behind) = some last ∧
      SplitAt (front ++ data ++ behind) last := by
  obtain ⟨last, ran, split⟩ := alike _ (cuts_around bytes succeeds)
  rw [run_append] at ran
  obtain ⟨before, ranBefore, ran⟩ := bind_eq_some_iff.mp ran
  obtain ⟨after, stepped, ran⟩ := bind_eq_some_iff.mp ran
  refine ⟨before, after, last, ?_, stepped, ran, split⟩
  have clean : 0 ∉ [] ++ front := fun member =>
    noNul (mem_append_left behind (mem_append_left data member))
  exact run_singles splitAt_start clean ranBefore

theorem shortLines_of_alike {stream : Bytes} (noNul : 0 ∉ stream) (alike : SplitsAlike stream) :
    ShortLines stream := by
  rintro front ⟨behind, rfl⟩
  by_contra long
  have shape : front ++ behind = front ++ [] ++ behind := by rw [append_nil]
  rw [shape] at alike noNul
  obtain ⟨before, after, _, split, stepped, _, _⟩ :=
    @alike_around front [] behind .again alike noNul rfl trivial
  rw [ircInputCb_overflow split.keeps (Nat.lt_of_not_le long)] at stepped
  cases stepped

theorem apart_of_alike {stream : Bytes} (noNul : 0 ∉ stream) (alike : SplitsAlike stream) :
    ¬MixesInRead stream := by
  rintro ⟨front, middle, behind, same, alone, small⟩
  have shape : stream = front ++ 10 :: (middle ++ crlf) ++ behind := by
    rw [same]
    simp only [append_assoc, cons_append]
  rw [shape] at alike noNul
  obtain ⟨before, after, last, split, stepped, ran, final⟩ :=
    @alike_around front _ behind (.data _ (cons_ne_nil _ _) small) alike noNul rfl trivial
  by_cases short : (unfinished [] front).length ≤ longestTail
  · have clean : 0 ∉ unfinished [] front ++ (10 :: (middle ++ crlf)) ++ behind := by
      intro member
      apply noNul
      rw [append_assoc, mem_append] at member ⊢
      exact member.imp unfinished_sub id
    obtain ⟨next, passed, left, again, splits, parsed, keeps⟩ := ircInputCb_data split.keeps short
      (fun member => clean (mem_append_left behind member)) (cons_ne_nil _ _) small
    cases again.symm.trans stepped
    have mixes : Mixes (unfinished [] front ++ 10 :: (middle ++ crlf)) := by
      refine ⟨unfinished [] front, middle, [], by rw [append_nil], fun ended => alone ?_⟩
      have moved := (return_ends_unfinished front []).mpr
      rw [append_nil, append_nil] at moved
      exact moved ended
    obtain ⟨line, member, feed⟩ := splits.mixed mixes
    have grown : after.parsed <+: last.parsed := by
      refine run_parsed (singles behind) keeps ?_ ran (singles_succeed behind)
      rw [singles_bytes]
      intro nul
      apply clean
      rcases mem_append.mp nul with kept | new
      · exact mem_append_left behind (splits.behind.subset kept)
      · exact mem_append_right _ new
    have passed' : line ∈ last.parsed := by
      apply grown.subset
      rw [parsed]
      exact mem_append_right _ member
    rw [final.parsed] at passed'
    exact (lines_clean not_mem_nil _).1 line passed' feed
  · rw [ircInputCb_overflow split.keeps (Nat.lt_of_not_le short)] at stepped
    cases stepped

theorem ircInput_splits_alike_iff (stream : Bytes) (noNul : 0 ∉ stream) :
    SplitsAlike stream ↔ ¬MixesInRead stream ∧ ShortLines stream := by
  constructor
  · exact fun alike => ⟨apart_of_alike noNul alike, shortLines_of_alike noNul alike⟩
  · rintro ⟨apart, short⟩ readings ⟨succeed, joined⟩
    have whole : [] ++ readings.flatMap Reading.bytes = stream := joined
    rw [← whole] at noNul apart short ⊢
    exact run_split readings splitAt_start succeed noNul short apart

theorem ircInput_splits_alike_iff_witness :
    SplitsAlike [97, 13, 10, 98, 10] ↔
      ¬MixesInRead [97, 13, 10, 98, 10] ∧ ShortLines [97, 13, 10, 98, 10] :=
  ircInput_splits_alike_iff [97, 13, 10, 98, 10] (by decide)

/-- `a`, a line feed, `b` and both ends of line, in one read: one line is passed. -/
theorem ircInput_not_alike : ¬SplitsAlike [97, 10, 98, 13, 10] := by
  intro alike
  obtain ⟨irc, ran, split⟩ := alike
    [.data [97, 10, 98, 13, 10] (cons_ne_nil _ _) (by decide)]
    ⟨forall_mem_singleton.mpr trivial, rfl⟩
  have computed : (run ircInputCb IrcConn.start
      [.data [97, 10, 98, 13, 10] (cons_ne_nil _ _) (by decide)]).map (·.parsed) =
        some [[97, 10, 98]] := by
    decide +kernel
  rw [ran, map_some, split.parsed] at computed
  revert computed
  decide

end Purple.Irc
