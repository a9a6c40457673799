/-
Sending a file: what the socket has taken, what is pending and what is not yet
read are the file from the start offset.
-/

import Purple.Ft
import Purple.PartialRun

namespace Purple.Ft

open List

def transfer (xfer : PurpleXfer) (answers : Answers) : Option PurpleXfer :=
  some (doTransfer xfer answers)

def socketTakes (xfer : PurpleXfer) (answers : Answers) : Prop :=
  xfer.ended = false ∧ answers.write ≠ .failed

def startSending (content : List UInt8) (offset : Nat) : PurpleXfer :=
  beginTransfer
    (purpleXferSetBytesSent
      (purpleXferSetSize (purpleXferNew .send false false false false false) content.length)
      offset)
    content

def between (content : List UInt8) (first last : Nat) : List UInt8 :=
  (content.take last).drop first

/-- `read` bytes of the file were read, and those that are not sent are pending. -/
structure SentExactly (content : List UInt8) (offset : Nat) (xfer : PurpleXfer) : Prop where
  socket : xfer.socket = between content offset xfer.bytesSent
  counted : xfer.bytesSent = offset + xfer.socket.length
  sum : xfer.bytesSent + xfer.bytesRemaining = content.length
  pending : ∃ read, xfer.bytesSent ≤ read ∧ read ≤ content.length ∧
    xfer.buffer = some (between content xfer.bytesSent read) ∧
    (xfer.ended = false → xfer.destFp = some { content, position := read })
  running : xfer.ended = false ↔ xfer.status = .started
  completed : xfer.status = .done ↔ offset < content.length ∧ xfer.socket = content.drop offset

/-- A send that is not over, with `read` bytes read. -/
structure Sending (content : List UInt8) (offset read : Nat) (xfer : PurpleXfer) : Prop where
  type : xfer.type = .send
  size : xfer.size = content.length
  callback : xfer.opsWrite = false
  ui : xfer.uiRead = false
  status : xfer.status = .started
  ended : xfer.ended = false
  grown : 0 < xfer.currentBufferSize ∧ xfer.currentBufferSize ≤ ftMaxBufferSize
  started : offset ≤ xfer.bytesSent
  sum : xfer.bytesSent + xfer.bytesRemaining = content.length
  unfinished : offset < content.length → xfer.bytesSent < content.length
  file : xfer.destFp = some { content, position := read }
  readAhead : xfer.bytesSent ≤ read
  readWithin : read ≤ content.length
  limited : read ≤ xfer.bytesSent + ftMaxBufferSize
  buffer : xfer.buffer = some (between content xfer.bytesSent read)
  socket : xfer.socket = between content offset xfer.bytesSent

section Segments

variable {content : List UInt8}

theorem length_between {first last : Nat} (within : last ≤ content.length) :
    (between content first last).length = last - first := by
  rw [between, List.length_drop, length_take, Nat.min_eq_left within]

theorem between_self (first : Nat) : between content first first = [] := by
  rw [between, drop_eq_nil_iff, length_take]
  exact Nat.min_le_left first content.length

theorem between_append {first middle last : Nat} (ordered : first ≤ middle)
    (after : middle ≤ last) (within : last ≤ content.length) :
    between content first middle ++ between content middle last = between content first last := by
  apply ext_getElem
  · rw [length_append, length_between within, length_between within,
      length_between (Nat.le_trans after within)]
    omega
  · intro index left right
    have bounded : (between content first middle).length = middle - first :=
      length_between (Nat.le_trans after within)
    by_cases early : index < middle - first
    · rw [getElem_append_left (by omega)]
      simp only [between, getElem_drop, getElem_take]
    · rw [getElem_append_right (by omega)]
      simp only [between, getElem_drop, getElem_take, List.length_drop,
        length_take]
      congr 1
      omega

theorem between_take {first last : Nat} (count : Nat) (within : first + count ≤ last)
    (inside : last ≤ content.length) :
    (between content first last).take count = between content first (first + count) := by
  have split : between content first (first + count) ++ between content (first + count) last =
      between content first last := between_append (Nat.le_add_right first count) within inside
  have length : (between content first (first + count)).length = first + count - first :=
    length_between (Nat.le_trans within inside)
  rw [← split, take_append_of_le_length (by omega), take_of_length_le (by omega)]

theorem between_drop (first last count : Nat) :
    (between content first last).drop count = between content (first + count) last := by
  rw [between, between, drop_drop]

theorem between_length (first : Nat) :
    between content first content.length = content.drop first := by
  rw [between, take_length]

end Segments

variable {content : List UInt8} {offset read : Nat} {xfer : PurpleXfer}

theorem sending_exact (sending : Sending content offset read xfer) :
    SentExactly content offset xfer := by
  have sum := sending.sum
  have started := sending.started
  have length : xfer.socket.length = xfer.bytesSent - offset := by
    rw [sending.socket]
    exact length_between (by omega)
  refine ⟨sending.socket, by omega, sum, ?_, ?_, ?_⟩
  · exact ⟨read, sending.readAhead, sending.readWithin, sending.buffer, fun _ => sending.file⟩
  · rw [sending.ended, sending.status]
    simp
  · rw [sending.status]
    constructor
    · intro impossible
      cases impossible
    · rintro ⟨nonempty, all⟩
      have behind := sending.unfinished nonempty
      rw [all, List.length_drop] at length
      omega

private theorem readData_sending (sending : Sending content offset read xfer) (answers : Answers)
    (block : min xfer.bytesRemaining xfer.currentBufferSize ≠ 0) :
    ∃ last bytes, readData xfer answers (readSize xfer) =
        .data bytes { xfer with destFp := some { content, position := last } } ∧
      read ≤ last ∧ last ≤ content.length ∧ xfer.bytesSent < last ∧
      last ≤ xfer.bytesSent + ftMaxBufferSize ∧
      between content xfer.bytesSent read ++ bytes = between content xfer.bytesSent last := by
  have sum := sending.sum
  have ahead := sending.readAhead
  have within := sending.readWithin
  have limited := sending.limited
  have grown := sending.grown.2
  have held : (between content xfer.bytesSent read).length = read - xfer.bytesSent :=
    length_between within
  generalize blockSize : min xfer.bytesRemaining xfer.currentBufferSize = s at block
  by_cases short : read - xfer.bytesSent < s
  · have wanted : readSize xfer = some (s - (read - xfer.bytesSent)) := by
      simp only [readSize, sending.buffer, held, blockSize]
      rw [if_pos short]
    have got : ((content.drop read).take (s - (read - xfer.bytesSent))) =
        between content read (xfer.bytesSent + s) := by
      rw [between, drop_take]
      congr 1
      omega
    have length : (between content read (xfer.bytesSent + s)).length =
        s - (read - xfer.bytesSent) := by
      rw [length_between (by omega)]
      omega
    refine ⟨xfer.bytesSent + s, between content read (xfer.bytesSent + s), ?_, by omega, by omega,
      by omega, by omega, between_append ahead (by omega) (by omega)⟩
    have position : read + (s - (read - xfer.bytesSent)) = xfer.bytesSent + s := by omega
    simp only [wanted, readData, sending.ui, sending.file, got, length, position]
    simp
  · have wanted : readSize xfer = none := by
      simp only [readSize, sending.buffer, held, blockSize]
      rw [if_neg short]
    refine ⟨read, [], ?_, Nat.le_refl read, within, by omega, limited, append_nil _⟩
    rw [wanted, ← sending.file]
    rfl

private theorem purpleXferWrite_sending (xfer : PurpleXfer) (callback : xfer.opsWrite = false)
    {data : List UInt8} (some_data : data ≠ []) (offered : data.length ≤ xfer.bytesRemaining)
    {answers : Answers} (taken : answers.write ≠ .failed) :
    ∃ r, r ≤ data.length ∧ purpleXferWrite xfer data answers =
      ((r : Int), if xfer.status ≠ .done
        then completeAt { xfer with socket := xfer.socket ++ data.take r } r
        else { xfer with socket := xfer.socket ++ data.take r }) := by
  have counted : ∃ r : Nat, r ≤ data.length ∧
      systemCount (min xfer.bytesRemaining data.length) answers.write = (r : Int) := by
    cases wrote : answers.write with
    | count bytes => exact ⟨_, by omega, rfl⟩
    | again => exact ⟨0, Nat.zero_le _, rfl⟩
    | failed => exact absurd wrote taken
  obtain ⟨r, bounded, result⟩ := counted
  refine ⟨r, bounded, ?_⟩
  unfold purpleXferWrite
  rw [if_neg some_data]
  simp only [callback, result, Bool.false_eq_true, if_false, Int.toNat_natCast, ge_iff_le,
    Int.natCast_nonneg, true_and]

private theorem countTransferred_eq (xfer : PurpleXfer) (known : 0 < xfer.size) {r : Nat}
    (bounded : r ≤ xfer.bytesRemaining)
    (fits : xfer.bytesSent + xfer.bytesRemaining < sizeLimit) :
    countTransferred xfer r =
      { xfer with bytesSent := xfer.bytesSent + r, bytesRemaining := xfer.bytesRemaining - r } := by
  unfold countTransferred
  cases r with
  | zero => rfl
  | succ before =>
    rw [if_pos (Int.natCast_pos.mpr (Nat.succ_pos before)), if_pos known, Int.toNat_natCast,
      addSize_eq (by omega), subSize_eq bounded (by omega)]

private theorem removeRange_eq {r : Nat} {buffer : List UInt8} (within : r ≤ buffer.length)
    (small : buffer.length ≤ ftMaxBufferSize) : removeRange r buffer = buffer.drop r := by
  have limit : ftMaxBufferSize = 65535 := rfl
  have length : ((r : Int) % 4294967296).toNat = r := by omega
  unfold removeRange
  rw [length, if_pos within]

private theorem grown_increase (xfer : PurpleXfer) (grows : Prop) [Decidable grows]
    (grown : 0 < xfer.currentBufferSize ∧ xfer.currentBufferSize ≤ ftMaxBufferSize) :
    ∃ bufferSize, (0 < bufferSize ∧ bufferSize ≤ ftMaxBufferSize) ∧
      (if grows then purpleXferIncreaseBufferSize xfer else xfer) =
        { xfer with currentBufferSize := bufferSize } := by
  have limit : ftMaxBufferSize = 65535 := rfl
  by_cases full : grows
  · rw [if_pos full]
    exact ⟨min (xfer.currentBufferSize * 3 / 2) ftMaxBufferSize, by omega, rfl⟩
  · rw [if_neg full]
    exact ⟨xfer.currentBufferSize, grown, rfl⟩

private theorem sendData_eq (xfer : PurpleXfer)
    (grown : 0 < xfer.currentBufferSize ∧ xfer.currentBufferSize ≤ ftMaxBufferSize)
    (known : 0 < xfer.size) {r : Nat} (bounded : r ≤ xfer.bytesRemaining)
    (fits : xfer.bytesSent + xfer.bytesRemaining < sizeLimit) (length : Nat) :
    ∃ bufferSize, (0 < bufferSize ∧ bufferSize ≤ ftMaxBufferSize) ∧ ∃ moved : PurpleXfer,
      moved = { xfer with
        currentBufferSize := bufferSize, buffer := xfer.buffer.map (removeRange r)
        bytesSent := xfer.bytesSent + r, bytesRemaining := xfer.bytesRemaining - r } ∧
      sendData xfer r length = if xfer.status = .done then purpleXferEnd moved else moved := by
  have accepted : (r : Int) ≠ -1 := by omega
  obtain ⟨bufferSize, sized, grew⟩ :=
    grown_increase xfer ((r : Int) ≥ 0 ∧ (r : Int) = (length : Int)) grown
  refine ⟨bufferSize, sized, _, rfl, ?_⟩
  unfold sendData
  rw [if_neg accepted]
  have counted := countTransferred_eq
    { xfer with currentBufferSize := bufferSize, buffer := xfer.buffer.map (removeRange r) }
    known bounded fits
  simp only [grew]
  unfold finishTransfer
  rw [counted]

def Progress (content : List UInt8) (offset : Nat) (xfer : PurpleXfer) : Prop :=
  SentExactly content offset xfer ∧
    (xfer.ended = false → ∃ read, Sending content offset read xfer)

private theorem progress_sending (sending : Sending content offset read xfer) :
    Progress content offset xfer :=
  ⟨sending_exact sending, fun _ => ⟨read, sending⟩⟩

private theorem sendData_sending (sending : Sending content offset read xfer)
    (fits : content.length < sizeLimit) (ahead : xfer.bytesSent < read) {r : Nat}
    (taken : r ≤ read - xfer.bytesSent) :
    Progress content offset
      (sendData (completeAt
        { xfer with socket := xfer.socket ++ (between content xfer.bytesSent read).take r } r)
        r (between content xfer.bytesSent read).length) := by
  have sum := sending.sum
  have started := sending.started
  have within := sending.readWithin
  have limited := sending.limited
  have size := sending.size
  have held : (between content xfer.bytesSent read).length = read - xfer.bytesSent :=
    length_between within
  have advanced : xfer.socket ++ (between content xfer.bytesSent read).take r =
      between content offset (xfer.bytesSent + r) := by
    rw [sending.socket, between_take r (by omega) within,
      between_append started (by omega) (by omega)]
  have remaining : xfer.buffer.map (removeRange r) =
      some (between content (xfer.bytesSent + r) read) := by
    rw [sending.buffer, Option.map_some, removeRange_eq (by omega) (by omega), between_drop]
  have added : addSize xfer.bytesSent r = xfer.bytesSent + r := addSize_eq (by omega)
  have known : 0 < xfer.size := by omega
  have bounded : r ≤ xfer.bytesRemaining := by omega
  have bothFit : xfer.bytesSent + xfer.bytesRemaining < sizeLimit := by omega
  unfold completeAt
  simp only [added, advanced]
  by_cases last : xfer.bytesSent + r ≥ xfer.size
  · rw [if_pos last]
    obtain ⟨bufferSize, sized, moved, rfl, result⟩ := sendData_eq
      { xfer with socket := between content offset (xfer.bytesSent + r), status := .done }
      sending.grown known bounded bothFit (between content xfer.bytesSent read).length
    rw [result, if_pos rfl]
    have all : xfer.bytesSent + r = content.length := by omega
    have length : (between content offset (xfer.bytesSent + r)).length =
        xfer.bytesSent + r - offset := length_between (by omega)
    refine ⟨⟨rfl, ?_, ?_, ?_, ?_, ?_⟩, ?_⟩
    · change xfer.bytesSent + r = offset + (between content offset (xfer.bytesSent + r)).length
      omega
    · change xfer.bytesSent + r + (xfer.bytesRemaining - r) = content.length
      omega
    · refine ⟨read, ?_, within, remaining, ?_⟩
      · change xfer.bytesSent + r ≤ read
        omega
      · intro impossible
        cases impossible
    · constructor <;> (intro impossible; cases impossible)
    · refine ⟨fun _ => ⟨by omega, ?_⟩, fun _ => rfl⟩
      change between content offset (xfer.bytesSent + r) = content.drop offset
      rw [all, between_length]
    · intro impossible
      cases impossible
  · rw [if_neg last]
    obtain ⟨bufferSize, sized, moved, rfl, result⟩ := sendData_eq
      { xfer with socket := between content offset (xfer.bytesSent + r) }
      sending.grown known bounded bothFit (between content xfer.bytesSent read).length
    have unfinished : xfer.status ≠ .done := by
      rw [sending.status]
      simp
    rw [result, if_neg unfinished]
    apply progress_sending
    exact
      { sending with
        grown := sized
        started := Nat.le_trans started (Nat.le_add_right _ r)
        sum := by
          change xfer.bytesSent + r + (xfer.bytesRemaining - r) = content.length
          omega
        unfinished := by
          intro _
          change xfer.bytesSent + r < content.length
          omega
        readAhead := by
          change xfer.bytesSent + r ≤ read
          omega
        limited := by
          change read ≤ xfer.bytesSent + r + ftMaxBufferSize
          omega
        buffer := remaining
        socket := rfl }

private theorem doTransfer_sending (sending : Sending content offset read xfer)
    (fits : content.length < sizeLimit) {answers : Answers} (taken : answers.write ≠ .failed) :
    Progress content offset (doTransfer xfer answers) := by
  unfold doTransfer
  rw [sending.type]
  simp only [doTransferSend]
  by_cases block : min xfer.bytesRemaining xfer.currentBufferSize = 0
  · rw [if_pos block]
    exact progress_sending sending
  · rw [if_neg block]
    obtain ⟨last, bytes, result, behind, within, ahead, limited, joined⟩ :=
      readData_sending sending answers block
    have sum := sending.sum
    have held : (between content xfer.bytesSent last).length = last - xfer.bytesSent :=
      length_between within
    have some_data : between content xfer.bytesSent last ≠ [] := by
      intro empty
      rw [empty, length_nil] at held
      omega
    have filled : Sending content offset last
        { xfer with
          destFp := some { content, position := last }
          buffer := some (between content xfer.bytesSent last) } :=
      { sending with
        file := rfl
        readAhead := Nat.le_of_lt ahead
        readWithin := within
        limited := limited
        buffer := rfl }
    obtain ⟨r, bounded, wrote⟩ := purpleXferWrite_sending _ filled.callback some_data
      (by change _ ≤ xfer.bytesRemaining; omega) taken
    simp only [result, sending.buffer, joined, writeData, wrote]
    have unfinished : xfer.status ≠ .done := by
      rw [sending.status]
      simp
    rw [if_pos unfinished]
    have unsent : r ≤ last - xfer.bytesSent := held ▸ bounded
    exact sendData_sending filled fits ahead unsent

theorem sending_start (within : offset ≤ content.length) (fits : content.length < sizeLimit) :
    Sending content offset offset (startSending content offset) := by
  have remaining : subSize content.length offset = content.length - offset :=
    subSize_eq within fits
  have grown : 0 < ftInitialBufferSize ∧ ftInitialBufferSize ≤ ftMaxBufferSize := by decide
  refine ⟨rfl, rfl, rfl, rfl, rfl, rfl, grown, Nat.le_refl offset, ?_, fun nonempty => nonempty,
    rfl, Nat.le_refl offset, within, Nat.le_add_right _ _, ?_, ?_⟩
  · change offset + subSize content.length offset = content.length
    omega
  · change some [] = some (between content offset offset)
    rw [between_self]
  · change [] = between content offset offset
    rw [between_self]

def takesOne : Answers :=
  { opsRead := 0, read := .again, fileWrite := 0, uiRead := none, opsWrite := 0, write := .count 1 }

end Purple.Ft
