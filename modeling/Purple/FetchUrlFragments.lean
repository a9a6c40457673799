/-
When the callback is told the same however the response is cut into reads.

The closed form of a fetch depends on the stream and on where the read that
completes the headers ends.  Every end within one read of the header block
occurs, so the fetch is independent of the cuts exactly when the closed form is.
-/

import Purple.FetchUrlReads

namespace Purple.FetchUrl

open List Memory CString PartialRun

theorem exists_completing (reads : List ReadBuffer) {target : Nat} (positive : 0 < target)
    (reached : target ≤ (joined reads).length) :
    ∃ before buf after, reads = before ++ buf :: after ∧ (joined before).length < target ∧
      target ≤ (joined before).length + buf.data.length := by
  induction reads generalizing target with
  | nil =>
    rw [joined_nil, length_nil] at reached
    omega
  | cons buf rest ih =>
    rw [joined_cons, length_append] at reached
    by_cases here : target ≤ buf.data.length
    · refine ⟨[], buf, rest, rfl, positive, ?_⟩
      rw [joined_nil, length_nil, Nat.zero_add]
      exact here
    · obtain ⟨before, later, after, split, early, complete⟩ :=
        @ih (target - buf.data.length) (by omega) (by omega)
      refine ⟨buf :: before, later, after, by rw [split]; rfl, ?_, ?_⟩
      · rw [joined_cons, length_append]
        omega
      · rw [joined_cons, length_append]
        omega

def single (byte : UInt8) : ReadBuffer := ⟨[byte], fun none => absurd none (cons_ne_nil _ _), Nat.le_of_ble_eq_true rfl⟩

theorem joined_single (bytes : List UInt8) : joined (bytes.map single) = bytes := by
  induction bytes with
  | nil => rfl
  | cons byte rest ih =>
    rw [map_cons, joined_cons, ih]
    rfl

structure CanEnd (stream : List UInt8) (headersEnd arrived : Nat) : Prop where
  complete : headersEnd + 4 ≤ arrived
  oneRead : arrived < headersEnd + 4 + 4096
  inside : arrived ≤ stream.length

theorem exists_reads {stream : List UInt8} {headersEnd arrived : Nat}
    (canEnd : CanEnd stream headersEnd arrived) :
    ∃ before buf after, joined (before ++ buf :: after) = stream ∧
      (joined before).length < headersEnd + 4 ∧
      (joined before).length + buf.data.length = arrived := by
  obtain ⟨complete, oneRead, inside⟩ := canEnd
  have length : ((stream.drop (headersEnd + 3)).take (arrived - (headersEnd + 3))).length =
      arrived - (headersEnd + 3) := by
    rw [length_take, List.length_drop]
    omega
  have nonempty : (stream.drop (headersEnd + 3)).take (arrived - (headersEnd + 3)) ≠ [] := by
    intro empty
    rw [empty, length_nil] at length
    omega
  have beforeLength : (stream.take (headersEnd + 3)).length = headersEnd + 3 := by
    rw [length_take]
    omega
  refine ⟨(stream.take (headersEnd + 3)).map single, ⟨_, nonempty, by omega⟩,
    (stream.drop arrived).map single, ?_, ?_, ?_⟩
  · have later : stream.drop arrived =
        (stream.drop (headersEnd + 3)).drop (arrived - (headersEnd + 3)) := by
      rw [drop_drop, Nat.add_sub_cancel' (by omega)]
    rw [joined_append, joined_cons, joined_single, joined_single, later,
      take_append_drop, take_append_drop]
  · rw [joined_single, beforeLength]
    omega
  · rw [joined_single, beforeLength]
    change headersEnd + 3 + List.length (List.take _ _) = arrived
    omega

/-! ### The result of every splitting -/

def told : Except ErrorMessage (List UInt8) → Progress
  | .ok bytes => .done (.contents (bytes.map some))
  | .error message => .done (.error message)

/-- Any two splittings of the stream end in one call of the callback, with the
same arguments. -/
def FragmentationIndependent (env : Environment) (gfud : PurpleUtilFetchUrlData)
    (stream : List UInt8) : Prop :=
  ∀ first second : List ReadBuffer, joined first = stream → joined second = stream →
    ∃ result, fetch env gfud first = some (told result) ∧
      fetch env gfud second = some (told result)

section agreement

variable (gfud : PurpleUtilFetchUrlData) (stream : List UInt8) (headersEnd : Nat)

/-- With headers: a declared length within what has arrived is the end of the
stream, and a buffer cut to 8192 body bytes is never handed over. -/
def IncludedAgree : Prop :=
  ∀ arrived, CanEnd stream headersEnd arrived → arrived ≤ gfud.maxLen →
    let text := textOf stream arrived
    let declared := contentLen gfud text (headerLenOf headersEnd) + headerLenOf headersEnd
    if parseContentLen text (headerLenOf headersEnd) = 0 then
      declared < arrived → gfud.maxLen < stream.length
    else declared ≤ arrived → declared = arrived ∧ arrived = stream.length

/-- Without headers: a header block and body bytes that pass the limit together
belong to a body that passes it alone, and a declared length within what has
arrived leaves nothing to deliver behind that. -/
def StrippedAgree : Prop :=
  headersEnd + 4 < 2 ^ 32 ∧
    ∀ arrived, CanEnd stream headersEnd arrived →
      let text := textOf stream arrived
      let body := stream.drop (headersEnd + 4)
      let bodyLen := arrived - (headersEnd + 4)
      let chunked := contentIsChunked (textOf stream (headersEnd + 4)) (headersEnd + 4)
      if gfud.maxLen < arrived then gfud.maxLen < body.length
      else parseContentLen text (headersEnd + 4) ≠ 0 →
        contentLen gfud text (headersEnd + 4) ≤ bodyLen →
        body.length ≤ gfud.maxLen ∧
          delivered chunked (body.take bodyLen) = delivered chunked body

/-- The header block alone passes the limit, or the early stop and the limit
treat every splitting alike. -/
def SplitsAgree : Prop :=
  ∀ headersEnd, strstr headerSeparator (cString stream) = some headersEnd →
    gfud.maxLen < headersEnd + 4 ∨
      if gfud.includeHeaders then IncludedAgree gfud stream headersEnd
      else StrippedAgree gfud stream headersEnd

end agreement

theorem told_contents {cells : List (Option UInt8)}
    {result : Except ErrorMessage (List UInt8)}
    (same : some (Progress.done (.contents cells)) = some (told result)) :
    ∃ bytes, result = .ok bytes ∧ cells = bytes.map some := by
  cases result with
  | ok bytes =>
    cases same
    exact ⟨bytes, rfl, rfl⟩
  | error message => cases same

theorem determined_realloc {front : List (Option UInt8)} {size arrived : Nat}
    {more : List (Option UInt8)} {bytes : List UInt8}
    (determined : Block.realloc (Block.realloc front size) arrived ++ more = bytes.map some) :
    arrived ≤ size := by
  apply Nat.le_of_not_lt
  intro dropped
  have cell : (Block.realloc (Block.realloc front size) arrived ++ more)[size]? = some none := by
    rw [getElem?_append_left (by rw [Block.realloc_length]; exact dropped),
      Block.realloc_getElem?, if_pos dropped, Block.realloc_getElem?,
      if_neg (Nat.lt_irrefl size)]
    rfl
  rw [determined, getElem?_map] at cell
  cases byte : bytes[size]? with
  | none =>
    rw [byte] at cell
    cases cell
  | some byte' =>
    rw [byte] at cell
    cases cell

theorem contentLen_pos (gfud : PurpleUtilFetchUrlData) (positive : 0 < gfud.maxLen)
    (text : List UInt8) (headerLen : Nat) : 0 < contentLen gfud text headerLen := by
  simp only [contentLen]
  split
  · decide
  · omega

theorem included_length {gfud : PurpleUtilFetchUrlData} {stream bytes : List UInt8}
    {headersEnd arrived : Nat} (inside : arrived ≤ stream.length)
    (outcome : includedOutcome gfud stream headersEnd arrived = some (told (.ok bytes))) :
    bytes.length = arrived ∨ bytes.length = stream.length := by
  simp only [includedOutcome] at outcome
  split at outcome
  · left
    obtain ⟨same, equal, cells⟩ := told_contents outcome
    cases equal
    have length := congrArg List.length cells
    rw [Block.realloc_length, length_map] at length
    exact length.symm
  · split at outcome
    · cases outcome
    · right
      obtain ⟨same, equal, cells⟩ := told_contents outcome
      cases equal
      have length := congrArg List.length cells
      rw [length_append, Block.realloc_length, length_map, length_map,
        List.length_drop] at length
      omega

section exact

variable {gfud : PurpleUtilFetchUrlData} {stream : List UInt8} {headersEnd : Nat}

theorem includedAgree_of_same (included : gfud.includeHeaders = true)
    (same : ∀ first second, CanEnd stream headersEnd first → CanEnd stream headersEnd second →
      ∃ result, closedForm gfud stream headersEnd first = some (told result) ∧
        closedForm gfud stream headersEnd second = some (told result)) :
    IncludedAgree gfud stream headersEnd := by
  have inLimit (arrived : Nat) (short : arrived ≤ gfud.maxLen) :
      closedForm gfud stream headersEnd arrived =
        includedOutcome gfud stream headersEnd arrived := by
    rw [closedForm, if_neg (Nat.not_lt.mpr short), if_pos included]
  intro arrived canEnd short
  obtain ⟨result, told, -⟩ := same arrived arrived canEnd canEnd
  rw [inLimit arrived short] at told
  dsimp only
  split
  · rename_i undeclared
    intro dropped
    apply Nat.lt_of_not_le
    intro fits
    rw [includedOutcome, if_neg (fun stops => stops.1 undeclared),
      if_neg (Nat.not_lt.mpr fits)] at told
    obtain ⟨bytes, -, cells⟩ := told_contents told
    exact absurd (determined_realloc cells) (Nat.not_le.mpr dropped)
  · rename_i isDeclared
    intro stops
    have stopped := told
    rw [includedOutcome, if_pos ⟨isDeclared, stops⟩] at stopped
    obtain ⟨bytes, equal, cells⟩ := told_contents stopped
    have kept : arrived ≤ _ := determined_realloc (by rw [append_nil]; exact cells)
    refine ⟨Nat.le_antisymm stops kept, ?_⟩
    have length := congrArg List.length cells
    rw [Block.realloc_length, length_map] at length
    apply Classical.byContradiction
    intro more
    have complete := canEnd.complete
    have inside := canEnd.inside
    have oneRead := canEnd.oneRead
    -- any other place for the end of the completing read gives another length
    obtain ⟨other, otherEnd, different⟩ :
        ∃ other, CanEnd stream headersEnd other ∧ other ≠ arrived := by
      by_cases first : arrived = headersEnd + 4
      · exact ⟨arrived + 1, ⟨by omega, by omega, by omega⟩, by omega⟩
      · exact ⟨headersEnd + 4, ⟨Nat.le_refl _, by omega, by omega⟩, by omega⟩
    obtain ⟨common, toldHere, toldThere⟩ := same arrived other canEnd otherEnd
    rw [inLimit arrived short, told] at toldHere
    rw [← toldHere, equal, closedForm, if_pos included] at toldThere
    split at toldThere
    · cases toldThere
    · have lengths := included_length otherEnd.inside toldThere
      omega

def plainResult (limited delivered : List UInt8) (gfud : PurpleUtilFetchUrlData) :
    Option Progress :=
  if gfud.maxLen < limited.length then some (tooLong gfud)
  else some (told (.ok delivered))

theorem closedForm_included (included : gfud.includeHeaders = true)
    (agree : IncludedAgree gfud stream headersEnd) {arrived : Nat}
    (canEnd : CanEnd stream headersEnd arrived) :
    closedForm gfud stream headersEnd arrived = plainResult stream stream gfud := by
  have inside := canEnd.inside
  have length : ((stream.take arrived).map some).length = arrived := by
    rw [length_map, length_take, Nat.min_eq_left inside]
  -- nothing dropped: what has come is kept as it is
  have whole (size : Nat) (kept : arrived ≤ size) :
      Block.realloc (Block.realloc ((stream.take arrived).map some) size) arrived =
        (stream.take arrived).map some := by
    have back := Block.realloc_of_prefix (prefix_refl ((stream.take arrived).map some))
    rw [length] at back
    rw [Block.realloc_realloc _ kept, back]
  have rest : (stream.take arrived).map some ++ (stream.drop arrived).map some =
      stream.map some := by
    rw [← map_append, take_append_drop]
  rw [closedForm, plainResult]
  by_cases long : gfud.maxLen < arrived
  · rw [if_pos long, if_pos (by omega)]
  · have here := agree arrived canEnd (Nat.le_of_not_lt long)
    dsimp only at here
    rw [if_neg long, if_pos included, includedOutcome]
    generalize size : contentLen gfud (textOf stream arrived) (headerLenOf headersEnd) +
      headerLenOf headersEnd = declared at here ⊢
    by_cases undeclared : parseContentLen (textOf stream arrived) (headerLenOf headersEnd) = 0
    · rw [if_pos undeclared] at here
      rw [if_neg (fun stops => stops.1 undeclared)]
      by_cases exceeds : gfud.maxLen < stream.length
      · rw [if_pos exceeds, if_pos exceeds]
      · rw [if_neg exceeds, if_neg exceeds, whole declared (by omega), rest]
        rfl
    · rw [if_neg undeclared] at here
      by_cases stops : declared ≤ arrived
      · obtain ⟨exact, last⟩ := here stops
        rw [if_pos ⟨undeclared, stops⟩, if_neg (by omega), whole declared (by omega), last,
          take_length]
        rfl
      · rw [if_neg (fun stopped => stops stopped.2), whole declared (by omega), rest]
        rfl

theorem strippedAgree_of_same (stripped : gfud.includeHeaders = false)
    (inLimit : headersEnd + 4 ≤ gfud.maxLen) (inside : headersEnd + 4 ≤ stream.length)
    (same : ∀ first second, CanEnd stream headersEnd first → CanEnd stream headersEnd second →
      ∃ result, closedForm gfud stream headersEnd first = some (told result) ∧
        closedForm gfud stream headersEnd second = some (told result)) :
    StrippedAgree gfud stream headersEnd := by
  have firstEnd : CanEnd stream headersEnd (headersEnd + 4) :=
    ⟨Nat.le_refl _, by omega, inside⟩
  have notIncluded : ¬gfud.includeHeaders = true := by
    rw [stripped]
    exact Bool.false_ne_true
  have small : headersEnd + 4 < 2 ^ 32 := by
    apply Classical.byContradiction
    intro wrapped
    obtain ⟨result, impossible, -⟩ := same _ _ firstEnd firstEnd
    rw [closedForm, if_neg (Nat.not_lt.mpr inLimit), if_neg notIncluded, if_neg wrapped]
      at impossible
    cases impossible
  -- with no body byte yet the early stop cannot fire
  have plain : closedForm gfud stream headersEnd (headersEnd + 4) =
      plainResult (stream.drop (headersEnd + 4))
        (delivered (contentIsChunked (textOf stream (headersEnd + 4)) (headersEnd + 4))
          (stream.drop (headersEnd + 4))) gfud := by
    have positive := contentLen_pos gfud (by omega)
      (textOf stream (headersEnd + 4)) (headersEnd + 4)
    rw [closedForm, if_neg (Nat.not_lt.mpr inLimit), if_neg notIncluded, if_pos small,
      strippedOutcome, plainResult, if_neg]
    · rfl
    · rintro ⟨-, stops⟩
      rw [Nat.sub_self] at stops
      omega
  refine ⟨small, fun arrived canEnd => ?_⟩
  obtain ⟨result, here, first⟩ := same arrived _ canEnd firstEnd
  rw [plain, plainResult] at first
  dsimp only
  split
  · rename_i long
    rw [closedForm, if_pos long] at here
    split at first
    · assumption
    · rw [← first] at here
      cases here
  · rename_i short
    intro isDeclared stops
    rw [closedForm, if_neg short, if_neg notIncluded, if_pos small, strippedOutcome,
      if_pos ⟨isDeclared, stops⟩] at here
    split at first
    · rw [← first] at here
      cases here
    · rename_i fits
      rw [← first] at here
      refine ⟨Nat.le_of_not_lt fits, ?_⟩
      obtain ⟨bytes, equal, cells⟩ := told_contents here
      cases equal
      exact map_injective_iff.mpr (fun _ _ => Option.some.inj) cells

theorem closedForm_stripped (stripped : gfud.includeHeaders = false)
    (agree : StrippedAgree gfud stream headersEnd) {arrived : Nat}
    (canEnd : CanEnd stream headersEnd arrived) :
    closedForm gfud stream headersEnd arrived =
      plainResult (stream.drop (headersEnd + 4))
        (delivered (contentIsChunked (textOf stream (headersEnd + 4)) (headersEnd + 4))
          (stream.drop (headersEnd + 4))) gfud := by
  obtain ⟨small, agree⟩ := agree
  have here := agree arrived canEnd
  dsimp only at here
  rw [closedForm, plainResult]
  by_cases long : gfud.maxLen < arrived
  · rw [if_pos long] at here
    rw [if_pos long, if_pos here]
  · rw [if_neg long] at here
    rw [if_neg long, if_neg (by rw [stripped]; exact Bool.false_ne_true), if_pos small,
      strippedOutcome]
    split
    · rename_i stops
      obtain ⟨fits, same⟩ := here stops.1 stops.2
      rw [if_neg (Nat.not_lt.mpr fits), same]
      rfl
    · rfl

end exact

theorem fetch_noHeaders (env : Environment) {gfud : PurpleUtilFetchUrlData}
    (headers : InHeaders gfud []) (reads : List ReadBuffer)
    (incomplete : strstr headerSeparator (cString (joined reads)) = none)
    (plain : gfud.chunked = false) :
    fetch env gfud reads = plainResult (joined reads) (joined reads) gfud := by
  have empty : gfud.len = 0 := headers.holds.len
  have ran := run_inHeaders env headers (by omega) reads incomplete
  rw [nil_append, empty, Nat.zero_add] at ran
  rw [fetch, run_append, plainResult]
  split
  · rename_i long
    rw [if_pos long] at ran
    rw [ran]
    rfl
  · rename_i short
    rw [if_neg short] at ran
    obtain ⟨webdata, dataLen, ranReads, last⟩ := ran
    rw [ranReads, Option.bind_some]
    change (finishFetch _).bind some = _
    rw [Option.bind_fun_some, finishFetch_eq, last.holds.cells_eq, finished_written, handedOver,
      plain, Bool.and_false]
    rfl

/-- A fetch does not depend on where the response is cut into reads exactly when
the early stop and the limit treat all cuts alike. -/
theorem urlFetchRecv_fragmentation (env : Environment)
    (memory : ∀ size, env.canAlloc size = true) (url : List UInt8) (full includeHeaders : Bool)
    (maxLen : Int) (stream : List UInt8)
    (direct : ∀ headersEnd, strstr headerSeparator (cString stream) = some headersEnd →
      strstr (ascii "\nLocation: ") (stream.take (headersEnd + 4)) = none) :
    FragmentationIndependent env (fetchUrlRequest env url full includeHeaders maxLen) stream ↔
      SplitsAgree (fetchUrlRequest env url full includeHeaders maxLen) stream := by
  have headers := inHeaders_fetchUrlRequest env url full includeHeaders maxLen
  have plain : (fetchUrlRequest env url full includeHeaders maxLen).chunked = false := rfl
  generalize fetchUrlRequest env url full includeHeaders maxLen = gfud at headers plain ⊢
  constructor
  · intro independent headersEnd found
    have inside := headers_inside found
    by_cases long : gfud.maxLen < headersEnd + 4
    · exact Or.inl long
    · right
      have same (first second : Nat) (firstEnd : CanEnd stream headersEnd first)
          (secondEnd : CanEnd stream headersEnd second) :
          ∃ result, closedForm gfud stream headersEnd first = some (told result) ∧
            closedForm gfud stream headersEnd second = some (told result) := by
        obtain ⟨before, buf, after, whole, early, ended⟩ := exists_reads firstEnd
        obtain ⟨before', buf', after', whole', early', ended'⟩ := exists_reads secondEnd
        have firstComplete := firstEnd.complete
        have secondComplete := secondEnd.complete
        obtain ⟨result, toldFirst, toldSecond⟩ := independent _ _ whole whole'
        rw [fetch_closedForm env memory found (direct _ found) headers whole early (by omega),
          ended] at toldFirst
        rw [fetch_closedForm env memory found (direct _ found) headers whole' early' (by omega),
          ended'] at toldSecond
        exact ⟨result, toldFirst, toldSecond⟩
      cases includes : gfud.includeHeaders with
      | true => exact includedAgree_of_same includes same
      | false => exact strippedAgree_of_same includes (Nat.le_of_not_lt long) inside same
  · intro agree
    suffices everywhere : ∃ limited delivered, ∀ reads, joined reads = stream →
        fetch env gfud reads = plainResult limited delivered gfud by
      obtain ⟨limited, delivered, everywhere⟩ := everywhere
      intro first second wholeFirst wholeSecond
      rw [everywhere first wholeFirst, everywhere second wholeSecond, plainResult]
      split
      · exact ⟨.error _, rfl, rfl⟩
      · exact ⟨.ok delivered, rfl, rfl⟩
    cases found : strstr headerSeparator (cString stream) with
    | none =>
      refine ⟨stream, stream, fun reads whole => ?_⟩
      rw [← whole] at found
      rw [fetch_noHeaders env headers reads found plain, whole]
    | some headersEnd =>
      have inside := headers_inside found
      have reduced (reads : List ReadBuffer) (whole : joined reads = stream) :
          ∃ arrived, CanEnd stream headersEnd arrived ∧
            fetch env gfud reads = closedForm gfud stream headersEnd arrived := by
        obtain ⟨before, buf, after, rfl, early, complete⟩ :=
          exists_completing reads (Nat.succ_pos (headersEnd + 3)) (by rw [whole]; exact inside)
        refine ⟨_, ⟨complete, ?_, ?_⟩,
          fetch_closedForm env memory found (direct _ found) headers whole early complete⟩
        · have fits := buf.fits
          omega
        · rw [← whole, joined_append, joined_cons, length_append, length_append]
          omega
      rcases agree headersEnd found with long | agree
      · -- the limit is passed before the header block is complete
        refine ⟨stream, stream, fun reads whole => ?_⟩
        obtain ⟨arrived, canEnd, closed⟩ := reduced reads whole
        have complete := canEnd.complete
        rw [closed, closedForm, plainResult, if_pos (by omega), if_pos (by omega)]
      · cases includes : gfud.includeHeaders with
        | true =>
          rw [includes, if_pos rfl] at agree
          refine ⟨stream, stream, fun reads whole => ?_⟩
          obtain ⟨arrived, canEnd, closed⟩ := reduced reads whole
          rw [closed, closedForm_included includes agree canEnd]
        | false =>
          rw [includes, if_neg Bool.false_ne_true] at agree
          refine ⟨stream.drop (headersEnd + 4),
            delivered (contentIsChunked (textOf stream (headersEnd + 4)) (headersEnd + 4))
              (stream.drop (headersEnd + 4)), fun reads whole => ?_⟩
          obtain ⟨arrived, canEnd, closed⟩ := reduced reads whole
          rw [closed, closedForm_stripped includes agree canEnd]

def declaredStream : List UInt8 := ascii "HTTP/1.1 200 OK\r\nContent-Length: 3\r\n\r\nabc"

theorem urlFetchRecv_fragmentation_declared :
    FragmentationIndependent plainEnvironment
        (fetchUrlRequest plainEnvironment (ascii "http://a/") true true 0) declaredStream ↔
      SplitsAgree (fetchUrlRequest plainEnvironment (ascii "http://a/") true true 0)
        declaredStream := by
  apply urlFetchRecv_fragmentation plainEnvironment (fun _ => rfl)
  intro headersEnd found
  have here : strstr headerSeparator (cString declaredStream) = some 34 := by decide +kernel
  rw [here] at found
  cases found
  decide +kernel

def shortReads : List ReadBuffer :=
  [⟨ascii "HTTP/1.1 200 OK\r\nContent-Length: 1\r\n\r\na", by decide, by decide⟩,
    ⟨ascii "bc", by decide, by decide⟩]

/-- One body byte with the headers ends the fetch; three at once are all kept. -/
theorem shortReads_not_independent :
    ¬FragmentationIndependent plainEnvironment
      (fetchUrlRequest plainEnvironment (ascii "http://a/") true false 0) (joined shortReads) := by
  intro independent
  obtain ⟨result, toldFirst, toldSecond⟩ := independent shortReads
    [⟨joined shortReads, by decide, by decide⟩] rfl (by decide)
  rw [← toldFirst] at toldSecond
  exact absurd toldSecond (by decide +kernel)

end Purple.FetchUrl
