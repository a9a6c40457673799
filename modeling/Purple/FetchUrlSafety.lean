/-
Memory safety of the response buffer: what `webdata` holds in every state a
sequence of reads reaches, and what the callback is handed.
-/

import Purple.FetchUrl

namespace Purple.FetchUrl

open List Option Memory CString

def headerSeparator : List UInt8 := ascii "\r\n\r\n"

/-- `webdata` starts with `held`, the bytes still needed, inside the allocation. -/
structure Holds (gfud : PurpleUtilFetchUrlData) (held : List UInt8) : Prop where
  front : held.map some <+: gfud.webdata
  len : gfud.len = held.length
  inside : gfud.len ≤ gfud.dataLen
  allocated : gfud.dataLen ≤ gfud.webdata.length

variable {headersEnd : Nat} {received : List UInt8}

theorem holds_fetchUrlRequest (env : Environment) (url : List UInt8)
    (full includeHeaders : Bool) (maxLen : Int) :
    Holds (fetchUrlRequest env url full includeHeaders maxLen) [] :=
  { front := nil_prefix
    len := rfl
    inside := Nat.le_refl 0
    allocated := Nat.le_refl 0 }

/-! ### One read -/

theorem growDataLen_passes (needed rounds dataLen : Nat) (enough : needed < dataLen + rounds) :
    needed < growDataLen needed rounds dataLen ∧
      growDataLen needed rounds dataLen ≤ max dataLen (needed + 4096) := by
  induction rounds generalizing dataLen with
  | zero => exact ⟨enough, Nat.le_max_left _ _⟩
  | succ rounds ih =>
    rw [growDataLen]
    split
    · have grown := ih (dataLen + 4096) (by omega)
      exact ⟨grown.1, by omega⟩
    · exact ⟨by omega, Nat.le_max_left _ _⟩

theorem growDataLen_stays {needed rounds dataLen : Nat} (larger : needed < dataLen) :
    growDataLen needed rounds dataLen = dataLen := by
  cases rounds with
  | zero => rfl
  | succ rounds => rw [growDataLen, if_neg (by omega)]

/-- What the first `len` cells hold; cells beyond the allocation are indeterminate. -/
def PurpleUtilFetchUrlData.cells (gfud : PurpleUtilFetchUrlData) : Block UInt8 :=
  gfud.webdata.realloc gfud.len

theorem Holds.cells_eq {gfud : PurpleUtilFetchUrlData} {held : List UInt8}
    (holds : Holds gfud held) : gfud.cells = held.map some := by
  have len : gfud.len = (held.map some).length := by rw [holds.len, length_map]
  rw [PurpleUtilFetchUrlData.cells, len]
  exact Block.realloc_of_prefix holds.front

theorem storeRead_cells {gfud : PurpleUtilFetchUrlData}
    (allocated : gfud.dataLen ≤ gfud.webdata.length) (buf : List UInt8) :
    ∃ webdata dataLen,
      storeRead gfud buf =
        some { gfud with webdata, dataLen, len := gfud.len + buf.length } ∧
      gfud.cells ++ buf.map some ++ [some 0] <+: webdata ∧
      gfud.len + buf.length < dataLen ∧
      dataLen ≤ max gfud.dataLen (gfud.len + buf.length + 4096) ∧
      dataLen ≤ webdata.length ∧
      (gfud.webdata.length = gfud.dataLen → webdata.length = dataLen) := by
  obtain ⟨passes, bounded⟩ := growDataLen_passes (gfud.len + buf.length)
    (gfud.len + buf.length + 1) gfud.dataLen (by omega)
  simp only [storeRead]
  generalize grown : growDataLen (gfud.len + buf.length) (gfud.len + buf.length + 1) gfud.dataLen =
    dataLen at passes bounded ⊢
  generalize resized : (if gfud.dataLen ≤ gfud.len + buf.length then
    gfud.webdata.realloc dataLen else gfud.webdata) = base
  obtain ⟨baseFront, baseLength, baseExact⟩ : gfud.cells <+: base ∧ dataLen ≤ base.length ∧
      (gfud.webdata.length = gfud.dataLen → base.length = dataLen) := by
    rw [← resized]
    split
    · refine ⟨?_, ?_, fun _ => Block.realloc_length _ _⟩
      · rw [PurpleUtilFetchUrlData.cells, ← Block.realloc_realloc gfud.webdata
          (show gfud.len ≤ dataLen by omega)]
        apply Block.realloc_prefix
        rw [Block.realloc_length]
        omega
      · rw [Block.realloc_length]
    · rename_i room
      rw [growDataLen_stays (by omega)] at grown
      rw [← grown]
      exact ⟨Block.realloc_prefix _ (by omega), allocated, id⟩
  have cellsLength : gfud.cells.length = gfud.len := Block.realloc_length _ _
  have room : gfud.cells.length + (buf.map some).length ≤ base.length := by
    rw [cellsLength, length_map]
    omega
  obtain ⟨first, firstStored, firstLength, firstFront⟩ := Block.store_after baseFront room
  have position : gfud.len + buf.length = (gfud.cells ++ buf.map some).length := by
    rw [length_append, cellsLength, length_map]
  have terminated : (gfud.cells ++ buf.map some).length + [some (0 : UInt8)].length ≤
      first.length := by
    rw [← position, length_singleton]
    omega
  obtain ⟨second, secondStored, secondLength, secondFront⟩ :=
    Block.store_after firstFront terminated
  rw [cellsLength] at firstStored
  rw [← position] at secondStored
  refine ⟨second, dataLen, ?_, secondFront, passes, bounded, by omega, fun exact => ?_⟩
  · rw [firstStored, bind_eq_bind, bind_some, secondStored]
    rfl
  · rw [secondLength, firstLength, baseExact exact]

theorem storeRead_holds {gfud : PurpleUtilFetchUrlData} {held : List UInt8}
    (holds : Holds gfud held) (buf : List UInt8) :
    ∃ webdata dataLen,
      storeRead gfud buf =
        some { gfud with webdata, dataLen, len := gfud.len + buf.length } ∧
      (held ++ buf).map some ++ [some 0] <+: webdata ∧
      gfud.len + buf.length < dataLen ∧ dataLen ≤ webdata.length := by
  obtain ⟨webdata, dataLen, stored, front, passes, -, allocated, -⟩ :=
    storeRead_cells holds.allocated buf
  rw [holds.cells_eq, ← map_append] at front
  exact ⟨webdata, dataLen, stored, front, passes, allocated⟩

theorem allWritten_map (bytes : List UInt8) : allWritten (bytes.map some) = some bytes := by
  induction bytes with
  | nil => rfl
  | cons byte rest ih => rw [map_cons, allWritten, ih]; rfl

/-- What the callback is handed when `held` is the whole of `webdata`. -/
def handedOver (gfud : PurpleUtilFetchUrlData) (held : List UInt8) : List UInt8 :=
  if !gfud.includeHeaders && gfud.chunked then processChunkedData held else held

/-- What the callback is told when `cells` are the first `len` cells. -/
def finished (gfud : PurpleUtilFetchUrlData) (cells : List (Option UInt8)) : Option Progress :=
  if !gfud.includeHeaders && gfud.chunked then
    (allWritten cells).map fun bytes => .done (.contents ((processChunkedData bytes).map some))
  else some (.done (.contents cells))

theorem finishFetch_eq (gfud : PurpleUtilFetchUrlData) :
    finishFetch gfud = finished gfud gfud.cells := by
  have cellsLength : gfud.cells.length = gfud.len := Block.realloc_length _ _
  have resized : gfud.cells <+: gfud.webdata.realloc (gfud.len + 1) := by
    rw [PurpleUtilFetchUrlData.cells, ← Block.realloc_realloc gfud.webdata
      (Nat.le_succ gfud.len)]
    apply Block.realloc_prefix
    rw [Block.realloc_length]
    exact Nat.le_succ _
  have room : gfud.cells.length + [some (0 : UInt8)].length ≤
      (gfud.webdata.realloc (gfud.len + 1)).length := by
    rw [Block.realloc_length, cellsLength, length_singleton]
  obtain ⟨terminated, stored, -, terminatedFront⟩ := Block.store_after resized room
  have loaded : terminated.load 0 gfud.len = some gfud.cells := by
    have front := Block.load_front [] gfud.cells
      ((prefix_append gfud.cells [some 0]).trans terminatedFront)
    rw [cellsLength] at front
    exact front
  rw [cellsLength] at stored
  simp only [finishFetch, stored, bind_eq_bind, bind_some, loaded, finished]
  split
  · cases allWritten gfud.cells <;> rfl
  · rfl

theorem finished_written (gfud : PurpleUtilFetchUrlData) (held : List UInt8) :
    finished gfud (held.map some) =
      some (.done (.contents ((handedOver gfud held).map some))) := by
  simp only [finished, allWritten_map, handedOver]
  split <;> rfl

theorem chunkLoop_sublist (rounds : Nat) (rest : List UInt8) :
    (chunkLoop rounds rest).Sublist rest := by
  induction rounds generalizing rest with
  | zero => exact nil_sublist _
  | succ rounds ih =>
    simp only [chunkLoop]
    split
    · exact nil_sublist _
    · split
      · rename_i size lineEnd _ _
        have body : (rest.drop (lineEnd + 2)).Sublist rest := List.drop_sublist _ _
        have chunk : ((rest.drop (lineEnd + 2)).take size).Sublist rest :=
          (take_sublist _ _).trans body
        split
        · exact nil_sublist _
        · split
          · exact chunk
          · have later := (ih (((rest.drop (lineEnd + 2)).drop size).drop 2)).trans
              (List.drop_sublist 2 _)
            have split := List.Sublist.append
              (List.Sublist.refl ((rest.drop (lineEnd + 2)).take size)) later
            rw [take_append_drop] at split
            exact split.trans body
      · exact nil_sublist _

theorem handedOver_sublist (gfud : PurpleUtilFetchUrlData) (held : List UInt8) :
    (handedOver gfud held).Sublist held := by
  unfold handedOver
  split
  · exact chunkLoop_sublist _ _
  · exact List.Sublist.refl _

/-! ### The end of the headers -/

theorem headers_inside {held : List UInt8}
    (found : strstr headerSeparator (cString held) = some headersEnd) :
    headersEnd + 4 ≤ held.length := by
  have bound := strstr_bound found
  have shorter := (cString_initial held).length_le
  change headersEnd + 4 ≤ _ at bound
  omega

section withHeaders

variable (gfud : PurpleUtilFetchUrlData) (text : List UInt8) (headerLen : Nat)

@[simp] theorem withHeaders_len : (withHeaders gfud text headerLen).len = gfud.len := rfl

@[simp] theorem withHeaders_webdata :
    (withHeaders gfud text headerLen).webdata = gfud.webdata := rfl

@[simp] theorem withHeaders_includeHeaders :
    (withHeaders gfud text headerLen).includeHeaders = gfud.includeHeaders := rfl

@[simp] theorem withHeaders_website :
    (withHeaders gfud text headerLen).website = gfud.website := rfl

end withHeaders

theorem takeHeaders_included (env : Environment) {gfud : PurpleUtilFetchUrlData}
    (text : List UInt8) (included : gfud.includeHeaders = true) {headerLen : Nat}
    (counted : headerLen = (headersEnd + 4) % 2 ^ 32) :
    takeHeaders env gfud text headersEnd =
      some (if env.canAlloc (contentLen gfud text headerLen + headerLen) then
        .waiting { withHeaders gfud text headerLen with
          dataLen := contentLen gfud text headerLen + headerLen
          webdata := gfud.webdata.realloc (contentLen gfud text headerLen + headerLen) }
      else fetchUrlError noMemoryFormat [.text gfud.website.address]) := by
  simp only [takeHeaders, withHeaders_includeHeaders, withHeaders_website, withHeaders_webdata,
    included, if_true, ← counted]
  split <;> rfl

theorem takeHeaders_stripped (env : Environment) {gfud : PurpleUtilFetchUrlData}
    {held : List UInt8} (text : List UInt8) (front : held.map some <+: gfud.webdata)
    (len : gfud.len = held.length) (stripped : gfud.includeHeaders = false)
    (inside : headersEnd + 4 ≤ held.length) (small : headersEnd + 4 < 2 ^ 32) :
    ∃ newData,
      takeHeaders env gfud text headersEnd =
        some (if env.canAlloc (max (contentLen gfud text (headersEnd + 4))
            (gfud.len - (headersEnd + 4))) then
          .waiting { withHeaders gfud text (headersEnd + 4) with
            len := gfud.len - (headersEnd + 4)
            dataLen := max (contentLen gfud text (headersEnd + 4)) (gfud.len - (headersEnd + 4))
            webdata := newData }
        else fetchUrlError noMemoryFormat [.text gfud.website.address]) ∧
      (held.drop (headersEnd + 4)).map some <+: newData ∧
      newData.length = max (contentLen gfud text (headersEnd + 4))
        (gfud.len - (headersEnd + 4)) := by
  have bodyLength : ((held.drop (headersEnd + 4)).map some).length =
      gfud.len - (headersEnd + 4) := by
    rw [length_map, List.length_drop, len]
  have headerLength : ((held.take (headersEnd + 4)).map some).length = headersEnd + 4 := by
    rw [length_map, length_take]
    omega
  have loaded : gfud.webdata.load (headersEnd + 4) (gfud.len - (headersEnd + 4)) =
      some ((held.drop (headersEnd + 4)).map some) := by
    have whole : (held.take (headersEnd + 4)).map some ++ (held.drop (headersEnd + 4)).map some <+:
        gfud.webdata := by
      rw [← map_append, take_append_drop]
      exact front
    have split := Block.load_front _ _ whole
    rw [headerLength, bodyLength] at split
    exact split
  generalize sized : max (contentLen gfud text (headersEnd + 4))
    (gfud.len - (headersEnd + 4)) = size
  have room : ([] : List (Option UInt8)).length +
      ((held.drop (headersEnd + 4)).map some).length ≤
        (Block.realloc ([] : Block UInt8) size).length := by
    rw [Block.realloc_length, bodyLength, length_nil]
    omega
  obtain ⟨newData, stored, length, newFront⟩ :=
    Block.store_after ( nil_prefix) room
  refine ⟨newData, ?_, newFront, length.trans (Block.realloc_length _ _)⟩
  simp only [takeHeaders, Nat.mod_eq_of_lt small, withHeaders_len, withHeaders_webdata,
    withHeaders_includeHeaders, withHeaders_website, stripped, Bool.false_eq_true, if_false, sized,
    loaded]
  split
  · rw [length_nil] at stored
    rw [bind_eq_bind, bind_some, stored]
    rfl
  · rfl

/-! ### Every sequence of reads -/

structure Session where
  progress : Progress
  received : List UInt8
deriving DecidableEq

def ReadResult.data : ReadResult → List UInt8
  | .bytes buf => buf.data
  | _ => []

def receive (env : Environment) (session : Session) (result : ReadResult) : Option Session :=
  match session.progress with
  | .done _ => some session
  | .waiting _ =>
    (urlFetchRecv env session.progress result).map fun progress =>
      { progress, received := session.received ++ result.data }

/-- The bytes in the first `len` cells of `webdata`. -/
def PurpleUtilFetchUrlData.held (gfud : PurpleUtilFetchUrlData) : List UInt8 :=
  (allWritten (gfud.webdata.take gfud.len)).getD []

theorem Holds.held_eq {gfud : PurpleUtilFetchUrlData} {held : List UInt8}
    (holds : Holds gfud held) : gfud.held = held := by
  obtain ⟨rest, split⟩ := holds.front
  have len : gfud.len = (held.map some).length := by rw [holds.len, length_map]
  rw [PurpleUtilFetchUrlData.held, ← split, len, take_left' rfl, allWritten_map]
  rfl

/-- Every byte in use was received and lies inside the allocation. -/
def Intact (received : List UInt8) : Progress → Prop
  | .waiting gfud => ∃ held, Holds gfud held ∧ held <:+ received
  | .done (.contents urlText) => ∃ bytes : List UInt8, urlText = bytes.map some ∧ bytes.Sublist received
  | .done (.error _) => True

/-- The read completes a header block and the reallocation to the declared
length (8192 when there is none) drops bytes, or the block is longer than a
`guint` counts and the copy of the body starts past the buffer. -/
def DropsBody (gfud : PurpleUtilFetchUrlData) (buf : List UInt8) : Prop :=
  gfud.gotHeaders = false ∧ gfud.len + buf.length ≤ gfud.maxLen ∧
    ∃ headersEnd ∈ strstr headerSeparator (cString (gfud.held ++ buf)),
      redirectLocation (cString (gfud.held ++ buf)) ((headersEnd + 4) % 2 ^ 32) = none ∧
      if gfud.includeHeaders then
        contentLen gfud (cString (gfud.held ++ buf)) ((headersEnd + 4) % 2 ^ 32) +
          (headersEnd + 4) % 2 ^ 32 < gfud.len + buf.length
      else 2 ^ 32 ≤ headersEnd + 4

instance (gfud : PurpleUtilFetchUrlData) (buf : List UInt8) : Decidable (DropsBody gfud buf) :=
  inferInstanceAs (Decidable (_ ∧ _))

def KeepsBody (session : Session) (result : ReadResult) : Prop :=
  match session.progress with
  | .waiting gfud => ¬DropsBody gfud result.data
  | .done _ => True

theorem finishFetch_intact {gfud : PurpleUtilFetchUrlData} {held : List UInt8}
    (holds : Holds gfud held) (suffix : held <:+ received) :
    ∃ progress, finishFetch gfud = some progress ∧ Intact received progress := by
  rw [finishFetch_eq, holds.cells_eq, finished_written]
  exact ⟨_, rfl, _, rfl, (handedOver_sublist gfud held).trans suffix.sublist⟩

theorem checkExplicitLen_intact {gfud : PurpleUtilFetchUrlData} {held : List UInt8}
    (holds : Holds gfud held) (suffix : held <:+ received) :
    ∃ progress, checkExplicitLen gfud = some progress ∧ Intact received progress := by
  rw [checkExplicitLen]
  split
  · exact finishFetch_intact holds suffix
  · exact ⟨_, rfl, held, holds, suffix⟩

theorem takeHeaders_intact (env : Environment) {gfud : PurpleUtilFetchUrlData} {held : List UInt8}
    (holds : Holds gfud held) (suffix : held <:+ received)
    (found : strstr headerSeparator (cString held) = some headersEnd)
    (kept : if gfud.includeHeaders then
      gfud.len ≤ contentLen gfud (cString held) ((headersEnd + 4) % 2 ^ 32) +
        (headersEnd + 4) % 2 ^ 32
      else headersEnd + 4 < 2 ^ 32) :
    ∃ progress, takeHeaders env gfud (cString held) headersEnd = some progress ∧
      Intact received progress := by
  cases includes : gfud.includeHeaders with
  | true =>
    rw [includes, if_pos rfl] at kept
    rw [takeHeaders_included env (cString held) includes rfl]
    refine ⟨_, rfl, ?_⟩
    split
    · refine ⟨held, ?_, suffix⟩
      constructor
      · apply Block.prefix_realloc holds.front
        rw [length_map, ← holds.len]
        exact kept
      · exact holds.len
      · exact kept
      · change _ ≤ List.length (Block.realloc _ _)
        rw [Block.realloc_length]
    · trivial
  | false =>
    rw [includes, if_neg Bool.false_ne_true] at kept
    have inside := headers_inside found
    obtain ⟨newData, taken, front, length⟩ :=
      takeHeaders_stripped env (cString held) holds.front holds.len includes inside kept
    refine ⟨_, taken, ?_⟩
    split
    · refine ⟨held.drop (headersEnd + 4), ?_, (drop_suffix _ _).trans suffix⟩
      constructor
      · exact front
      · change gfud.len - (headersEnd + 4) = _
        rw [List.length_drop, holds.len]
      · exact Nat.le_max_right _ _
      · exact Nat.le_of_eq length.symm
    · trivial

theorem followRedirect_intact (env : Environment) (gfud : PurpleUtilFetchUrlData)
    (received location : List UInt8) : Intact received (followRedirect env gfud location) := by
  simp only [followRedirect]
  generalize (if location.head? = some 47 ∨ strstr (ascii "://") location = none then
    gfud.website.address ++ ascii ":" ++ env.decimal gfud.website.port ++ location
    else location) = newUrl
  split
  · trivial
  · generalize (if (strcasestr (ascii "https://") newUrl).isSome = true then
      env.sslConnects (env.urlParse newUrl) else env.proxyConnects (env.urlParse newUrl)) = connects
    cases connects with
    | false => trivial
    | true =>
      refine ⟨[], ?_, nil_suffix⟩
      exact
        { front := nil_prefix
          len := rfl
          inside := Nat.le_refl 0
          allocated := Nat.zero_le _ }

theorem recvBytes_intact (env : Environment) {gfud : PurpleUtilFetchUrlData} {held : List UInt8}
    (holds : Holds gfud held) (suffix : held <:+ received) {buf : List UInt8}
    (kept : ¬DropsBody gfud buf) :
    ∃ progress, recvBytes env gfud buf = some progress ∧ Intact (received ++ buf) progress := by
  rw [recvBytes]
  split
  · exact ⟨_, rfl, trivial⟩
  · rename_i short
    obtain ⟨webdata, dataLen, stored, front, room, allocated⟩ := storeRead_holds holds buf
    rw [stored, bind_eq_bind, bind_some]
    generalize after : ({ gfud with webdata, dataLen, len := gfud.len + buf.length } :
      PurpleUtilFetchUrlData) = grown
    have grownHolds : Holds grown (held ++ buf) := by
      rw [← after]
      constructor
      · exact (prefix_append _ _).trans front
      · rw [length_append, ← holds.len]
      · exact Nat.le_of_lt room
      · exact allocated
    have grownSuffix : held ++ buf <:+ received ++ buf := by
      obtain ⟨before, split⟩ := suffix
      exact ⟨before, by rw [← split, append_assoc]⟩
    have grownString : blockString grown.webdata = some (cString (held ++ buf)) := by
      rw [← after]
      exact blockString_of_prefix front
    split
    · exact checkExplicitLen_intact grownHolds grownSuffix
    · rename_i noHeaders
      rw [grownString, bind_eq_bind, bind_some]
      cases found : strstr (ascii "\r\n\r\n") (cString (held ++ buf)) with
      | none => exact checkExplicitLen_intact grownHolds grownSuffix
      | some headersEnd =>
        simp only
        cases redirect : redirectLocation (cString (held ++ buf))
            ((headersEnd + 4) % 2 ^ 32) with
        | some location => exact ⟨_, rfl, followRedirect_intact env grown _ location⟩
        | none =>
          have room : if grown.includeHeaders then
              grown.len ≤ contentLen grown (cString (held ++ buf))
                ((headersEnd + 4) % 2 ^ 32) + (headersEnd + 4) % 2 ^ 32
              else headersEnd + 4 < 2 ^ 32 := by
            rw [← after]
            apply Classical.byContradiction
            intro drops
            apply kept
            rw [DropsBody, holds.held_eq]
            have fresh : gfud.gotHeaders = false := by
              rw [← after] at noHeaders
              exact Bool.eq_false_iff.mpr noHeaders
            refine ⟨fresh, Nat.le_of_not_lt short, headersEnd, found, redirect, ?_⟩
            cases includes : gfud.includeHeaders with
            | true =>
              simp only [includes, if_true, Nat.not_le] at drops ⊢
              exact drops
            | false =>
              simp only [includes, Bool.false_eq_true, if_false, Nat.not_lt] at drops ⊢
              exact drops
          obtain ⟨progress, taken, intact⟩ :=
            takeHeaders_intact env grownHolds grownSuffix found room
          simp only [taken, bind_eq_bind, bind_some]
          cases progress with
          | done outcome => exact ⟨_, rfl, intact⟩
          | waiting gfud =>
            obtain ⟨keptHeld, keptHolds, keptSuffix⟩ := intact
            exact checkExplicitLen_intact keptHolds keptSuffix

theorem receive_intact (env : Environment) {session : Session} {result : ReadResult}
    (intact : Intact session.received session.progress) (kept : KeepsBody session result) :
    ∃ next, receive env session result = some next ∧ Intact next.received next.progress := by
  obtain ⟨progress, received⟩ := session
  cases progress with
  | done outcome => exact ⟨_, rfl, intact⟩
  | waiting gfud =>
    obtain ⟨held, holds, suffix⟩ := intact
    have same : Intact (received ++ []) (.waiting gfud) := by
      rw [append_nil]
      exact ⟨held, holds, suffix⟩
    cases result with
    | bytes buf =>
      obtain ⟨next, stepped, nextIntact⟩ :
          ∃ next, recvBytes env gfud buf.data = some next ∧
            Intact (received ++ buf.data) next := recvBytes_intact env holds suffix kept
      refine ⟨⟨next, received ++ buf.data⟩, ?_, nextIntact⟩
      simp only [receive, urlFetchRecv, stepped, map_some, ReadResult.data]
    | eof =>
      obtain ⟨next, stepped, nextIntact⟩ := finishFetch_intact holds suffix
      refine ⟨⟨next, received ++ []⟩, ?_, ?_⟩
      · simp only [receive, urlFetchRecv, stepped, map_some, ReadResult.data]
      · rw [append_nil]
        exact nextIntact
    | again => exact ⟨_, rfl, same⟩
    | failed strerror => exact ⟨_, rfl, trivial⟩

/-- As long as no read drops part of the body, every store of every run is inside
`webdata`, and the callback is handed received bytes only. -/
theorem urlFetchRecv_intact (env : Environment) (url : List UInt8) (full includeHeaders : Bool)
    (maxLen : Int) {results : List ReadResult}
    (kept : PartialRun.Admitted (receive env) KeepsBody
      ⟨.waiting (fetchUrlRequest env url full includeHeaders maxLen), []⟩ results)
    {done : List ReadResult} (initial : done <+: results) :
    ∃ last,
      PartialRun.run (receive env)
        ⟨.waiting (fetchUrlRequest env url full includeHeaders maxLen), []⟩ done = some last ∧
      Intact last.received last.progress := by
  apply PartialRun.reached (fun session => Intact session.received session.progress)
    (fun _ _ intact kept => receive_intact env intact kept) _ kept initial
  exact ⟨[], holds_fetchUrlRequest env url full includeHeaders maxLen, suffix_refl []⟩

def plainEnvironment : Environment :=
  { urlParse := fun _ => ⟨ascii "a", 80⟩
    sslConnects := fun _ => false
    proxyConnects := fun _ => false
    canAlloc := fun _ => true
    decimal := fun _ => [] }

def declaredRead : ReadBuffer :=
  ⟨ascii "HTTP/1.1 200 OK\r\nContent-Length: 3\r\n\r\nabc", by decide, by decide⟩

theorem urlFetchRecv_intact_declared :
    ∃ last,
      PartialRun.run (receive plainEnvironment)
        ⟨.waiting (fetchUrlRequest plainEnvironment (ascii "http://a/") true true 0), []⟩
        [.bytes declaredRead] = some last ∧
      Intact last.received last.progress := by
  apply urlFetchRecv_intact plainEnvironment (ascii "http://a/") true true 0 _
    (prefix_refl _)
  constructor
  · change ¬DropsBody _ _
    decide +kernel
  · exact fun _ _ => trivial

/-- Three body bytes arrive with the headers, but only one is declared. -/
def overfullRead : ReadBuffer :=
  ⟨ascii "HTTP/1.1 200 OK\r\nContent-Length: 1\r\n\r\nabc", by decide, by decide⟩

theorem overfullRead_not_intact :
    ¬∃ last,
      PartialRun.run (receive plainEnvironment)
        ⟨.waiting (fetchUrlRequest plainEnvironment (ascii "http://a/") true true 0), []⟩
        [.bytes overfullRead] = some last ∧
      Intact last.received last.progress := by
  rintro ⟨last, ran, intact⟩
  have computed :
      PartialRun.run (receive plainEnvironment)
        ⟨.waiting (fetchUrlRequest plainEnvironment (ascii "http://a/") true true 0), []⟩
        [.bytes overfullRead] =
      some ⟨.done (.contents ((overfullRead.data.take 39).map some ++ [none, none])),
        overfullRead.data⟩ := by
    decide +kernel
  rw [computed] at ran
  cases ran
  obtain ⟨bytes, same, -⟩ := intact
  have written : none ∉ bytes.map some := by
    intro member
    obtain ⟨_, _, impossible⟩ := List.mem_map.mp member
    cases impossible
  apply written
  rw [← same]
  exact mem_append_right _ (mem_cons_self)

end Purple.FetchUrl
