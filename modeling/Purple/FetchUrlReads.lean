/-
A whole fetch, from the first read to the end of the connection, in closed form.

Before the header block is complete the buffer holds the stream so far; behind
it the buffer only grows.  Of the cuts between the reads only one matters: where
the read that completes the header block ends.
-/

import Purple.FetchUrlSafety

namespace Purple.FetchUrl

open List Option Memory CString PartialRun

def joined (reads : List ReadBuffer) : List UInt8 := reads.flatMap ReadBuffer.data

variable {next : PurpleUtilFetchUrlData} {text : List UInt8}

@[simp] theorem joined_nil : joined [] = [] := rfl

@[simp] theorem joined_cons (buf : ReadBuffer) (rest : List ReadBuffer) :
    joined (buf :: rest) = buf.data ++ joined rest := flatMap_cons

@[simp] theorem joined_append (first second : List ReadBuffer) :
    joined (first ++ second) = joined first ++ joined second := flatMap_append

/-- The response arrives in these reads and the peer closes the connection. -/
def fetch (env : Environment) (gfud : PurpleUtilFetchUrlData) (reads : List ReadBuffer) :
    Option Progress :=
  run (urlFetchRecv env) (.waiting gfud) (reads.map .bytes ++ [.eof])

theorem run_done (env : Environment) (outcome : Outcome) (results : List ReadResult) :
    run (urlFetchRecv env) (.done outcome) results = some (.done outcome) := by
  induction results with
  | nil => rfl
  | cons result rest ih =>
    rw [run_cons]
    exact ih

def tooLong (gfud : PurpleUtilFetchUrlData) : Progress :=
  fetchUrlError tooLongFormat [.text gfud.website.address, .number gfud.maxLen]

theorem recvBytes_tooLong (env : Environment) {gfud : PurpleUtilFetchUrlData}
    {buf : List UInt8} (long : gfud.maxLen < gfud.len + buf.length) :
    recvBytes env gfud buf = some (tooLong gfud) :=
  if_pos long

/-- The headers have been read and the allocation is what `data_len` says. -/
structure InBody (gfud : PurpleUtilFetchUrlData) : Prop where
  gotHeaders : gfud.gotHeaders = true
  allocated : gfud.dataLen ≤ gfud.webdata.length
  inLimit : gfud.len ≤ gfud.maxLen

/-- A body read that fits the limit is appended; the early stop never fires,
since `data_len` has just been made larger than `len`. -/
theorem recvBytes_inBody (env : Environment) {gfud : PurpleUtilFetchUrlData}
    (body : InBody gfud) {buf : List UInt8} (short : gfud.len + buf.length ≤ gfud.maxLen) :
    ∃ webdata dataLen,
      recvBytes env gfud buf =
        some (.waiting { gfud with webdata, dataLen, len := gfud.len + buf.length }) ∧
      InBody { gfud with webdata, dataLen, len := gfud.len + buf.length } ∧
      Block.realloc webdata (gfud.len + buf.length) = gfud.cells ++ buf.map some := by
  obtain ⟨webdata, dataLen, stored, front, passes, -, allocated, -⟩ :=
    storeRead_cells body.allocated buf
  refine ⟨webdata, dataLen, ?_, ⟨body.gotHeaders, allocated, short⟩, ?_⟩
  · rw [recvBytes, if_neg (Nat.not_lt.mpr short), stored, bind_eq_bind, bind_some,
      if_pos body.gotHeaders, checkExplicitLen, if_neg]
    rintro ⟨-, stops⟩
    exact absurd stops (Nat.not_le.mpr passes)
  · have position : gfud.len + buf.length = (gfud.cells ++ buf.map some).length := by
      rw [length_append, PurpleUtilFetchUrlData.cells, Block.realloc_length, length_map]
    rw [position]
    exact Block.realloc_of_prefix ((prefix_append _ _).trans front)

theorem fetch_inBody (env : Environment) {gfud : PurpleUtilFetchUrlData} (body : InBody gfud)
    (reads : List ReadBuffer) :
    fetch env gfud reads =
      if gfud.maxLen < gfud.len + (joined reads).length then some (tooLong gfud)
      else finished gfud (gfud.cells ++ (joined reads).map some) := by
  induction reads generalizing gfud with
  | nil =>
    rw [joined_nil, length_nil, Nat.add_zero, if_neg (Nat.not_lt.mpr body.inLimit),
      map_nil, append_nil]
    change (finishFetch gfud).bind some = finished gfud gfud.cells
    rw [finishFetch_eq, bind_fun_some]
  | cons buf rest ih =>
    rw [joined_cons, length_append, ← Nat.add_assoc]
    by_cases long : gfud.maxLen < gfud.len + buf.data.length
    · rw [if_pos (by omega)]
      change (recvBytes env gfud buf.data).bind _ = _
      rw [recvBytes_tooLong env long, bind_some]
      exact run_done env _ _
    · obtain ⟨webdata, dataLen, received, nextBody, cells⟩ :=
        recvBytes_inBody env body (Nat.le_of_not_lt long)
      change (recvBytes env gfud buf.data).bind _ = _
      rw [received, bind_some]
      have later := ih nextBody
      have nextCells : PurpleUtilFetchUrlData.cells
          { gfud with webdata, dataLen, len := gfud.len + buf.data.length } =
          gfud.cells ++ buf.data.map some := cells
      rw [nextCells, append_assoc, ← map_append] at later
      exact later

/-! ### Up to the headers -/

/-- No header block is complete yet; the buffer holds the whole stream so far. -/
structure InHeaders (gfud : PurpleUtilFetchUrlData) (held : List UInt8) : Prop where
  holds : Holds gfud held
  gotHeaders : gfud.gotHeaders = false
  explicitLen : gfud.hasExplicitDataLen = false
  exact : gfud.webdata.length = gfud.dataLen
  slack : gfud.dataLen ≤ gfud.len + 4096

theorem inHeaders_fetchUrlRequest (env : Environment) (url : List UInt8)
    (full includeHeaders : Bool) (maxLen : Int) :
    InHeaders (fetchUrlRequest env url full includeHeaders maxLen) [] :=
  { holds := holds_fetchUrlRequest env url full includeHeaders maxLen
    gotHeaders := rfl
    explicitLen := rfl
    exact := rfl
    slack := Nat.zero_le _ }

theorem storeRead_inHeaders {gfud : PurpleUtilFetchUrlData} {held : List UInt8}
    (headers : InHeaders gfud held) (buf : List UInt8) :
    ∃ webdata dataLen,
      storeRead gfud buf =
        some { gfud with webdata, dataLen, len := gfud.len + buf.length } ∧
      InHeaders { gfud with webdata, dataLen, len := gfud.len + buf.length } (held ++ buf) ∧
      blockString webdata = some (cString (held ++ buf)) := by
  obtain ⟨webdata, dataLen, stored, front, passes, bounded, allocated, exact⟩ :=
    storeRead_cells headers.holds.allocated buf
  rw [headers.holds.cells_eq, ← map_append] at front
  refine ⟨webdata, dataLen, stored, ?_, blockString_of_prefix front⟩
  have slack := headers.slack
  constructor
  · constructor
    · exact (prefix_append _ _).trans front
    · rw [length_append, ← headers.holds.len]
    · exact Nat.le_of_lt passes
    · exact allocated
  · exact headers.gotHeaders
  · exact headers.explicitLen
  · exact exact headers.exact
  · change dataLen ≤ gfud.len + buf.length + 4096
    omega

theorem recvBytes_inHeaders (env : Environment) {gfud : PurpleUtilFetchUrlData}
    {held : List UInt8} (headers : InHeaders gfud held) {buf : List UInt8}
    (short : gfud.len + buf.length ≤ gfud.maxLen)
    (incomplete : strstr headerSeparator (cString (held ++ buf)) = none) :
    ∃ webdata dataLen,
      recvBytes env gfud buf =
        some (.waiting { gfud with webdata, dataLen, len := gfud.len + buf.length }) ∧
      InHeaders { gfud with webdata, dataLen, len := gfud.len + buf.length } (held ++ buf) := by
  obtain ⟨webdata, dataLen, stored, next, text⟩ := storeRead_inHeaders headers buf
  refine ⟨webdata, dataLen, ?_, next⟩
  change strstr (ascii "\r\n\r\n") _ = none at incomplete
  simp only [recvBytes, if_neg (Nat.not_lt.mpr short), stored, bind_eq_bind,
    bind_some, headers.gotHeaders, Bool.false_eq_true, if_false, text, incomplete,
    checkExplicitLen, headers.explicitLen, false_and]

theorem run_inHeaders (env : Environment) {gfud : PurpleUtilFetchUrlData}
    {held : List UInt8} (headers : InHeaders gfud held) (inLimit : gfud.len ≤ gfud.maxLen)
    (reads : List ReadBuffer)
    (incomplete : strstr headerSeparator (cString (held ++ joined reads)) = none) :
    if gfud.maxLen < gfud.len + (joined reads).length then
      run (urlFetchRecv env) (.waiting gfud) (reads.map .bytes) = some (tooLong gfud)
    else ∃ webdata dataLen,
      run (urlFetchRecv env) (.waiting gfud) (reads.map .bytes) =
        some (.waiting { gfud with webdata, dataLen, len := gfud.len + (joined reads).length }) ∧
      InHeaders { gfud with webdata, dataLen, len := gfud.len + (joined reads).length }
        (held ++ joined reads) := by
  induction reads generalizing gfud held with
  | nil =>
    rw [joined_nil, length_nil, Nat.add_zero, if_neg (Nat.not_lt.mpr inLimit),
      append_nil]
    exact ⟨gfud.webdata, gfud.dataLen, rfl, headers⟩
  | cons buf rest ih =>
    rw [joined_cons, ← append_assoc] at incomplete
    rw [joined_cons, length_append, ← Nat.add_assoc, ← append_assoc]
    by_cases long : gfud.maxLen < gfud.len + buf.data.length
    · rw [if_pos (by omega)]
      change (recvBytes env gfud buf.data).bind _ = _
      rw [recvBytes_tooLong env long, bind_some]
      exact run_done env _ _
    · have short := Nat.le_of_not_lt long
      have incompleteFirst : strstr headerSeparator (cString (held ++ buf.data)) = none :=
        strstr_none_of_front (cString_append_front _ _) incomplete
      obtain ⟨webdata, dataLen, received, next⟩ :=
        recvBytes_inHeaders env headers short incompleteFirst
      have later := ih next short incomplete
      change if _ then (recvBytes env gfud buf.data).bind _ = _ else
        ∃ _ _, (recvBytes env gfud buf.data).bind _ = _ ∧ _
      rw [received]
      exact later

/-! ### The read that completes the headers -/

theorem fetch_checkExplicitLen (env : Environment) {gfud : PurpleUtilFetchUrlData}
    (body : InBody gfud) (reads : List ReadBuffer) :
    ((checkExplicitLen gfud).bind fun progress =>
        run (urlFetchRecv env) progress (reads.map .bytes ++ [.eof])) =
      if gfud.hasExplicitDataLen = true ∧ gfud.dataLen ≤ gfud.len then finished gfud gfud.cells
      else if gfud.maxLen < gfud.len + (joined reads).length then some (tooLong gfud)
      else finished gfud (gfud.cells ++ (joined reads).map some) := by
  rw [checkExplicitLen]
  split
  · rw [finishFetch_eq, finished]
    split
    · cases allWritten gfud.cells with
      | none => rfl
      | some bytes => exact run_done env _ _
    · exact run_done env _ _
  · exact fetch_inBody env body reads

structure SameRequest (gfud next : PurpleUtilFetchUrlData) : Prop where
  website : next.website = gfud.website
  maxLen : next.maxLen = gfud.maxLen
  includeHeaders : next.includeHeaders = gfud.includeHeaders

theorem SameRequest.tooLong_eq {gfud : PurpleUtilFetchUrlData} (same : SameRequest gfud next) :
    tooLong next = tooLong gfud := by
  rw [tooLong, tooLong, same.website, same.maxLen]

/-- `header_len`, a `guint`. -/
def headerLenOf (headersEnd : Nat) : Nat := (headersEnd + 4) % 2 ^ 32

/-- The request once the headers of `text` have been taken off it. -/
structure HeadersTaken (gfud next : PurpleUtilFetchUrlData) (text : List UInt8)
    (headersEnd : Nat) : Prop where
  body : InBody next
  same : SameRequest gfud next
  explicitLen : next.hasExplicitDataLen =
    if parseContentLen text (headerLenOf headersEnd) = 0 then false else true
  chunked : next.chunked = contentIsChunked text (headerLenOf headersEnd)

section complete

variable (env : Environment) (memory : ∀ size, env.canAlloc size = true)
  {gfud : PurpleUtilFetchUrlData} {held buf : List UInt8} {headersEnd : Nat}
  (headers : InHeaders gfud held) (short : gfud.len + buf.length ≤ gfud.maxLen)
  (found : strstr headerSeparator (cString (held ++ buf)) = some headersEnd)
  (stays : redirectLocation (cString (held ++ buf)) (headerLenOf headersEnd) = none)

include headers short found stays

theorem recvBytes_complete :
    ∃ grown,
      recvBytes env gfud buf =
        ((takeHeaders env grown (cString (held ++ buf)) headersEnd).bind fun
          | .waiting gfud => checkExplicitLen gfud
          | .done outcome => some (.done outcome)) ∧
      InHeaders grown (held ++ buf) ∧ SameRequest gfud grown ∧ grown.len ≤ gfud.maxLen := by
  obtain ⟨webdata, dataLen, stored, next, text⟩ := storeRead_inHeaders headers buf
  refine ⟨_, ?_, next, ⟨rfl, rfl, rfl⟩, short⟩
  change strstr (ascii "\r\n\r\n") _ = some headersEnd at found
  rw [headerLenOf] at stays
  simp only [recvBytes, if_neg (Nat.not_lt.mpr short), stored, bind_eq_bind,
    bind_some, headers.gotHeaders, Bool.false_eq_true, if_false, text, found, stays]
  rfl

include memory

theorem recvBytes_included (included : gfud.includeHeaders = true) :
    ∃ next,
      recvBytes env gfud buf = checkExplicitLen next ∧
      HeadersTaken gfud next (cString (held ++ buf)) headersEnd ∧
      next.len = (held ++ buf).length ∧
      next.dataLen = contentLen gfud (cString (held ++ buf)) (headerLenOf headersEnd) +
        headerLenOf headersEnd ∧
      next.cells = Block.realloc
        (Block.realloc ((held ++ buf).map some) next.dataLen) (held ++ buf).length := by
  obtain ⟨grown, received, grownHeaders, same, inLimit⟩ :=
    recvBytes_complete env headers short found stays
  rw [takeHeaders_included env _ (same.includeHeaders.trans included) rfl, if_pos (memory _)]
    at received
  have sameLen : contentLen grown (cString (held ++ buf)) (headerLenOf headersEnd) =
      contentLen gfud (cString (held ++ buf)) (headerLenOf headersEnd) := by
    rw [contentLen, contentLen, same.maxLen]
  refine ⟨_, received, ?_, grownHeaders.holds.len, ?_, ?_⟩
  · constructor
    · constructor
      · rfl
      · change _ ≤ List.length (Block.realloc _ _)
        rw [Block.realloc_length]
      · change grown.len ≤ grown.maxLen
        rw [same.maxLen]
        exact inLimit
    · exact ⟨same.website, same.maxLen, same.includeHeaders⟩
    · change (if _ then grown.hasExplicitDataLen else true) = _
      rw [grownHeaders.explicitLen]
      rfl
    · rfl
  · rw [← sameLen]
    rfl
  · change Block.realloc (Block.realloc grown.webdata _) grown.len = _
    have front := Block.realloc_front grownHeaders.holds.front
      (contentLen grown (cString (held ++ buf)) (headerLenOf headersEnd) +
        headerLenOf headersEnd)
    rw [length_map, ← grownHeaders.holds.len] at front
    rw [← grownHeaders.holds.len]
    exact front

theorem recvBytes_stripped (stripped : gfud.includeHeaders = false)
    (small : headersEnd + 4 < 2 ^ 32) :
    ∃ next,
      recvBytes env gfud buf = checkExplicitLen next ∧
      HeadersTaken gfud next (cString (held ++ buf)) headersEnd ∧
      next.len = (held ++ buf).length - (headersEnd + 4) ∧
      next.dataLen = max (contentLen gfud (cString (held ++ buf)) (headerLenOf headersEnd))
        next.len ∧
      next.cells = ((held ++ buf).drop (headersEnd + 4)).map some := by
  obtain ⟨grown, received, grownHeaders, same, inLimit⟩ :=
    recvBytes_complete env headers short found stays
  have holds := grownHeaders.holds
  have counted : headerLenOf headersEnd = headersEnd + 4 := Nat.mod_eq_of_lt small
  obtain ⟨newData, taken, front, length⟩ :=
    takeHeaders_stripped env (cString (held ++ buf)) holds.front holds.len
      (same.includeHeaders.trans stripped) (headers_inside found) small
  rw [taken, if_pos (memory _)] at received
  have sameLen : contentLen grown (cString (held ++ buf)) (headersEnd + 4) =
      contentLen gfud (cString (held ++ buf)) (headerLenOf headersEnd) := by
    rw [contentLen, contentLen, same.maxLen, counted]
  refine ⟨_, received, ?_, ?_, ?_, ?_⟩
  · constructor
    · constructor
      · rfl
      · exact Nat.le_of_eq length.symm
      · change grown.len - (headersEnd + 4) ≤ grown.maxLen
        rw [same.maxLen]
        omega
    · exact ⟨same.website, same.maxLen, same.includeHeaders⟩
    · rw [counted]
      change (if _ then grown.hasExplicitDataLen else true) = _
      rw [grownHeaders.explicitLen]
    · rw [counted]
      rfl
  · rw [← holds.len]
  · rw [← sameLen]
  · have bodyLength : grown.len - (headersEnd + 4) =
        (((held ++ buf).drop (headersEnd + 4)).map some).length := by
      rw [length_map, List.length_drop, holds.len]
    change Block.realloc newData (grown.len - (headersEnd + 4)) = _
    rw [bodyLength]
    exact Block.realloc_of_prefix front

/-- `header_len` has wrapped: the body copy starts at the end of the headers but
its length counts from their wrapped length. -/
theorem recvBytes_wrapped (stripped : gfud.includeHeaders = false)
    (wrapped : 2 ^ 32 ≤ headersEnd + 4) : recvBytes env gfud buf = none := by
  obtain ⟨grown, received, grownHeaders, same, -⟩ :=
    recvBytes_complete env headers short found stays
  have inside := headers_inside found
  have len := grownHeaders.holds.len
  have slack := grownHeaders.slack
  have exact := grownHeaders.exact
  have counted : headerLenOf headersEnd + 2 ^ 32 ≤ headersEnd + 4 := by
    rw [headerLenOf]
    omega
  have outside : grown.webdata.load (headersEnd + 4) (grown.len - headerLenOf headersEnd) =
      none := by
    rw [Block.load, if_neg]
    omega
  rw [headerLenOf] at outside
  rw [received]
  simp only [takeHeaders, withHeaders_includeHeaders, withHeaders_len, withHeaders_webdata,
    same.includeHeaders, stripped, Bool.false_eq_true, if_false, memory, if_true, outside,
    bind_eq_bind, bind_none]

end complete

theorem findHeaderContent_front {left right : List UInt8} {dataLen : Nat}
    (same : left.take dataLen = right.take dataLen) (header : List UInt8) :
    findHeaderContent left dataLen header = findHeaderContent right dataLen header := by
  have compared (inside : header.length < dataLen) :
      strncasecmpEq left header.tail (header.length - 1) =
        strncasecmpEq right header.tail (header.length - 1) := by
    have front : left.take (header.length - 1) = right.take (header.length - 1) := by
      have taken := congrArg (List.take (header.length - 1)) same
      rw [take_take, take_take, Nat.min_eq_left (by omega)] at taken
      exact taken
    rw [strncasecmpEq, strncasecmpEq, front]
  simp only [findHeaderContent, same]
  split
  · rename_i inside
    rw [compared inside]
  · rfl

theorem strncasecmpEq_newline (newline : 10 ∈ text.take 7) :
    strncasecmpEq text (ascii "chunked") 7 = false := by
  apply Bool.eq_false_iff.mpr
  intro same
  have lowered : asciiToLower 10 ∈ (text.take 7).map asciiToLower :=
    List.mem_map_of_mem newline
  rw [strncasecmpEq, beq_iff_eq] at same
  rw [same] at lowered
  exact absurd lowered (by decide)

theorem strncasecmpEq_front {dataLen content : Nat}
    (newline : 10 ∈ (text.take dataLen).drop content) :
    strncasecmpEq (text.drop content) (ascii "chunked") 7 =
      strncasecmpEq ((text.take dataLen).drop content) (ascii "chunked") 7 := by
  have front : (text.take dataLen).drop content = (text.drop content).take (dataLen - content) :=
    drop_take
  rw [front] at newline ⊢
  by_cases inside : 7 ≤ dataLen - content
  · rw [strncasecmpEq, strncasecmpEq, take_take, Nat.min_eq_left inside]
  · have early : 10 ∈ (text.drop content).take 7 :=
      (take_prefix_take_left (by omega)).subset newline
    have earlyFront : 10 ∈ ((text.drop content).take (dataLen - content)).take 7 := by
      rw [take_take, Nat.min_eq_right (by omega)]
      exact newline
    rw [strncasecmpEq_newline early, strncasecmpEq_newline earlyFront]

theorem newline_of_strstr (found : (strstr (ascii "\n") text).isSome) : 10 ∈ text := by
  obtain ⟨offset, found⟩ := isSome_iff_exists.mp found
  obtain ⟨before, after, split, -⟩ := strstr_decompose found
  rw [split]
  exact mem_append_left _ (mem_append_right _ (by decide))

theorem contentIsChunked_front {left right : List UInt8} {dataLen : Nat}
    (same : left.take dataLen = right.take dataLen) :
    contentIsChunked left dataLen = contentIsChunked right dataLen := by
  rw [contentIsChunked, contentIsChunked, findHeaderContent_front same]
  cases value : findHeaderContent right dataLen (ascii "\nTransfer-Encoding: ") with
  | none => rfl
  | some content =>
    have newline : 10 ∈ (right.take dataLen).drop content :=
      newline_of_strstr (filter_eq_some_iff.mp value).2
    exact (strncasecmpEq_front (same ▸ newline)).trans
      ((congrArg (fun front => strncasecmpEq (front.drop content) (ascii "chunked") 7) same).trans
        (strncasecmpEq_front newline).symm)

/-! ### The closed form -/

/-- `webdata` as a string once `count` bytes of the stream have come. -/
def textOf (stream : List UInt8) (count : Nat) : List UInt8 := (cString stream).take count

def delivered (chunked : Bool) (body : List UInt8) : List UInt8 :=
  if chunked then processChunkedData body else body

section closedForm

variable (gfud : PurpleUtilFetchUrlData) (stream : List UInt8) (headersEnd arrived : Nat)

/-- The result with headers when the read that completes them ends at `arrived`. -/
def includedOutcome : Option Progress :=
  let text := textOf stream arrived
  let dataLen := contentLen gfud text (headerLenOf headersEnd) + headerLenOf headersEnd
  let kept := Block.realloc (Block.realloc ((stream.take arrived).map some) dataLen) arrived
  if parseContentLen text (headerLenOf headersEnd) ≠ 0 ∧ dataLen ≤ arrived then
    some (.done (.contents kept))
  else if gfud.maxLen < stream.length then some (tooLong gfud)
  else some (.done (.contents (kept ++ (stream.drop arrived).map some)))

def strippedOutcome : Option Progress :=
  let text := textOf stream arrived
  let body := stream.drop (headersEnd + 4)
  let bodyLen := arrived - (headersEnd + 4)
  let chunked := contentIsChunked (textOf stream (headersEnd + 4)) (headersEnd + 4)
  if parseContentLen text (headersEnd + 4) ≠ 0 ∧
      contentLen gfud text (headersEnd + 4) ≤ bodyLen then
    some (.done (.contents ((delivered chunked (body.take bodyLen)).map some)))
  else if gfud.maxLen < body.length then some (tooLong gfud)
  else some (.done (.contents ((delivered chunked body).map some)))

def closedForm : Option Progress :=
  if gfud.maxLen < arrived then some (tooLong gfud)
  else if gfud.includeHeaders then includedOutcome gfud stream headersEnd arrived
  else if headersEnd + 4 < 2 ^ 32 then strippedOutcome gfud stream headersEnd arrived
  else none

end closedForm

theorem finished_stripped {gfud : PurpleUtilFetchUrlData} {headersEnd : Nat}
    (taken : HeadersTaken gfud next text headersEnd) (stripped : gfud.includeHeaders = false)
    (held : List UInt8) :
    finished next (held.map some) = some (.done (.contents
      ((delivered (contentIsChunked text (headerLenOf headersEnd)) held).map some))) := by
  rw [finished_written, handedOver, taken.same.includeHeaders, stripped, taken.chunked]
  rfl

theorem finished_included {gfud : PurpleUtilFetchUrlData} {headersEnd : Nat}
    (taken : HeadersTaken gfud next text headersEnd) (included : gfud.includeHeaders = true)
    (cells : List (Option UInt8)) : finished next cells = some (.done (.contents cells)) := by
  rw [finished, taken.same.includeHeaders, included]
  rfl

theorem explicitLen_iff {gfud : PurpleUtilFetchUrlData} {headersEnd : Nat}
    (taken : HeadersTaken gfud next text headersEnd) :
    next.hasExplicitDataLen = true ↔ parseContentLen text (headerLenOf headersEnd) ≠ 0 := by
  rw [taken.explicitLen]
  split <;> simp_all

theorem stays_of_direct {stream : List UInt8} {headersEnd : Nat}
    (direct : strstr (ascii "\nLocation: ") (stream.take (headersEnd + 4)) = none)
    {arrived : Nat} (complete : headersEnd + 4 ≤ arrived) :
    redirectLocation (textOf stream arrived) (headerLenOf headersEnd) = none := by
  have shorter : headerLenOf headersEnd ≤ headersEnd + 4 := Nat.mod_le _ _
  have front : (textOf stream arrived).take (headerLenOf headersEnd) <+:
      stream.take (headersEnd + 4) := by
    rw [textOf, take_take, Nat.min_eq_left (by omega)]
    exact (take_prefix_take_left shorter).trans ((cString_initial stream).take _)
  rw [redirectLocation, strstr_none_of_front front direct]

section fetch

variable (env : Environment) (memory : ∀ size, env.canAlloc size = true)
  {gfud : PurpleUtilFetchUrlData} {stream : List UInt8} {headersEnd : Nat}
  (found : strstr headerSeparator (cString stream) = some headersEnd)
  (direct : strstr (ascii "\nLocation: ") (stream.take (headersEnd + 4)) = none)

include memory found direct

theorem recvBytes_closedForm {held buf : List UInt8} {arrived : Nat}
    (headers : InHeaders gfud held) (front : held ++ buf = stream.take arrived)
    (inside : arrived ≤ stream.length) (complete : headersEnd + 4 ≤ arrived)
    (after : List ReadBuffer) (rest : joined after = stream.drop arrived) :
    ((recvBytes env gfud buf).bind fun progress =>
        run (urlFetchRecv env) progress (after.map .bytes ++ [.eof])) =
      closedForm gfud stream headersEnd arrived := by
  have frontLength : (held ++ buf).length = arrived := by
    rw [front, length_take, Nat.min_eq_left inside]
  have len : gfud.len + buf.length = arrived := by
    rw [headers.holds.len, ← frontLength, length_append]
  rw [closedForm]
  by_cases long : gfud.maxLen < arrived
  · rw [if_pos long, recvBytes_tooLong env (len ▸ long), bind_some]
    exact run_done env _ _
  · rw [if_neg long]
    have short : gfud.len + buf.length ≤ gfud.maxLen := len ▸ Nat.le_of_not_lt long
    have text : cString (held ++ buf) = textOf stream arrived := by
      rw [front, cString_take, textOf]
    have foundHere : strstr headerSeparator (cString (held ++ buf)) = some headersEnd := by
      rw [text, textOf, strstr_take_iff found, if_pos]
      exact complete
    have stays : redirectLocation (cString (held ++ buf)) (headerLenOf headersEnd) = none := by
      rw [text]
      exact stays_of_direct direct complete
    have restLength : (joined after).length = stream.length - arrived := by
      rw [rest, List.length_drop]
    cases includes : gfud.includeHeaders with
    | true =>
      obtain ⟨next, received, taken, nextLen, dataLen, cells⟩ :=
        recvBytes_included env memory headers short foundHere stays includes
      have total : next.len + (joined after).length = stream.length := by omega
      rw [text] at dataLen
      rw [frontLength] at nextLen
      rw [frontLength, front, dataLen] at cells
      rw [received, fetch_checkExplicitLen env taken.body, if_pos rfl, includedOutcome]
      simp only [total, taken.same.maxLen, taken.same.tooLong_eq,
        finished_included taken includes, explicitLen_iff taken, text]
      rw [nextLen, dataLen, cells, rest]
    | false =>
      rw [if_neg Bool.false_ne_true]
      by_cases small : headersEnd + 4 < 2 ^ 32
      · obtain ⟨next, received, taken, nextLen, dataLen, cells⟩ :=
          recvBytes_stripped env memory headers short foundHere stays includes small
        have counted : headerLenOf headersEnd = headersEnd + 4 := Nat.mod_eq_of_lt small
        have body : (held ++ buf).drop (headersEnd + 4) =
            (stream.drop (headersEnd + 4)).take (arrived - (headersEnd + 4)) := by
          rw [front, drop_take]
        have whole : (stream.drop (headersEnd + 4)).take (arrived - (headersEnd + 4)) ++
            joined after = stream.drop (headersEnd + 4) := by
          have later : joined after =
              (stream.drop (headersEnd + 4)).drop (arrived - (headersEnd + 4)) := by
            rw [rest, drop_drop, Nat.add_sub_cancel' complete]
          rw [later, take_append_drop]
        have total : next.len + (joined after).length =
            (stream.drop (headersEnd + 4)).length := by
          rw [List.length_drop]
          omega
        have stops : next.dataLen ≤ next.len ↔
            contentLen gfud (textOf stream arrived) (headersEnd + 4) ≤
              arrived - (headersEnd + 4) := by
          rw [dataLen, nextLen, frontLength, text, counted]
          omega
        have chunked : contentIsChunked (textOf stream arrived) (headersEnd + 4) =
            contentIsChunked (textOf stream (headersEnd + 4)) (headersEnd + 4) := by
          apply contentIsChunked_front
          rw [textOf, textOf, take_take, take_take, Nat.min_eq_left complete,
            Nat.min_self]
        rw [body] at cells
        rw [received, fetch_checkExplicitLen env taken.body, if_pos small, strippedOutcome]
        simp only [explicitLen_iff taken, stops, total, taken.same.maxLen,
          taken.same.tooLong_eq, cells, ← map_append, whole,
          finished_stripped taken includes, text, counted, chunked]
      · rw [if_neg small, recvBytes_wrapped env memory headers short foundHere stays
          includes (Nat.le_of_not_lt small)]
        rfl

theorem fetch_closedForm (headers : InHeaders gfud []) {before after : List ReadBuffer}
    {buf : ReadBuffer} (whole : joined (before ++ buf :: after) = stream)
    (early : (joined before).length < headersEnd + 4)
    (complete : headersEnd + 4 ≤ (joined before).length + buf.data.length) :
    fetch env gfud (before ++ buf :: after) =
      closedForm gfud stream headersEnd ((joined before).length + buf.data.length) := by
  rw [joined_append, joined_cons] at whole
  have beforeFront : joined before = stream.take (joined before).length := by
    rw [← whole, take_left' rfl]
  have arrivedFront : joined before ++ buf.data =
      stream.take ((joined before).length + buf.data.length) := by
    rw [← whole, ← append_assoc, take_left']
    exact length_append
  have rest : joined after =
      stream.drop ((joined before).length + buf.data.length) := by
    rw [← whole, ← append_assoc, drop_left']
    exact length_append
  have inside : (joined before).length + buf.data.length ≤ stream.length := by
    rw [← whole, length_append, length_append]
    omega
  have incomplete : strstr headerSeparator (cString ([] ++ joined before)) = none := by
    rw [nil_append, beforeFront, cString_take, strstr_take_iff found, if_neg]
    exact Nat.not_le.mpr early
  have empty : gfud.len = 0 := headers.holds.len
  have ran := run_inHeaders env headers (by omega) before incomplete
  have unfolded : fetch env gfud (before ++ buf :: after) =
      (run (urlFetchRecv env) (.waiting gfud) (before.map .bytes)).bind fun progress =>
        (urlFetchRecv env progress (.bytes buf)).bind fun progress =>
          run (urlFetchRecv env) progress (after.map .bytes ++ [.eof]) := by
    rw [fetch, map_append, append_assoc, run_append]
    rfl
  rw [nil_append, empty, Nat.zero_add] at ran
  rw [unfolded]
  by_cases long : gfud.maxLen < (joined before).length
  · rw [if_pos long] at ran
    rw [ran, bind_some, closedForm, if_pos (by omega)]
    exact run_done env _ _
  · rw [if_neg long] at ran
    obtain ⟨webdata, dataLen, ranBefore, middleHeaders⟩ := ran
    rw [ranBefore, bind_some]
    exact recvBytes_closedForm env memory found direct middleHeaders arrivedFront inside
      complete after rest

end fetch

end Purple.FetchUrl
