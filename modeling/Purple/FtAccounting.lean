/-
The bytes sent and the bytes remaining of a transfer of known size.
-/

import Purple.Ft
import Purple.PartialRun

namespace Purple.Ft

inductive Call where
  | setSize (size : UInt64)
  | setBytesSent (bytesSent : UInt64)
  | writeFile (size : UInt64) (answers : Answers)
  | readFile (size : UInt64) (got : Int) (failed : Bool)
  | doTransfer (answers : Answers)

def call (xfer : PurpleXfer) : Call → Option PurpleXfer
  | .setSize size => some (purpleXferSetSize xfer size.toNat)
  | .setBytesSent bytesSent => some (purpleXferSetBytesSent xfer bytesSent.toNat)
  | .writeFile size answers => some (purpleXferWriteFile xfer size.toNat answers)
  | .readFile size got failed => some (purpleXferReadFile xfer size.toNat got failed).2
  | .doTransfer answers => some (doTransfer xfer answers)

/-- A known size and a position within it that is not behind what was received,
and no callback that moves more bytes than remain. -/
def admits (xfer : PurpleXfer) : Call → Prop
  | .setSize size => xfer.ended = false ∧ 0 < size.toNat ∧ xfer.bytesSent ≤ size.toNat
  | .setBytesSent bytesSent => xfer.ended = false ∧ bytesSent.toNat ≤ xfer.size ∧
      (xfer.type = .receive → xfer.written ≤ bytesSent.toNat)
  | .writeFile _ _ => xfer.ended = false
  | .readFile _ got _ => xfer.ended = false ∧ got ≤ xfer.bytesRemaining
  | .doTransfer answers => xfer.ended = false ∧
      match xfer.type with
      | .receive => xfer.opsRead = true → answers.opsRead ≤ xfer.bytesRemaining
      | .send => xfer.opsWrite = true → answers.opsWrite ≤ xfer.bytesRemaining

def newTransfer (type : XferType) (opsRead opsWrite uiRead uiWrite dataNotSent : Bool)
    (size : UInt64) (file : Option OpenFile) : PurpleXfer :=
  { purpleXferSetSize (purpleXferNew type opsRead opsWrite uiRead uiWrite dataNotSent)
      size.toNat with destFp := file }

/-- The sum is one of natural numbers, and holds until the transfer is ended. -/
def Accounts (xfer : PurpleXfer) : Prop :=
  (xfer.ended = false → xfer.bytesSent + xfer.bytesRemaining = xfer.size) ∧
    (xfer.type = .receive → xfer.written ≤ xfer.size)

/-- What the steps keep: a file that is received has no bytes that are not
counted as sent. -/
structure Accounted (xfer : PurpleXfer) : Prop where
  known : 0 < xfer.size
  fits : xfer.size < sizeLimit
  sum : xfer.ended = false → xfer.bytesSent + xfer.bytesRemaining = xfer.size
  behind : xfer.ended = false → xfer.type = .receive → xfer.written ≤ xfer.bytesSent
  within : xfer.type = .receive → xfer.written ≤ xfer.size

variable {answers : Answers}

private theorem toNat_lt (size : UInt64) : size.toNat < sizeLimit := size.toNat_lt

theorem accounted_new (type : XferType) (opsRead opsWrite uiRead uiWrite dataNotSent : Bool)
    {size : UInt64} (known : 0 < size.toNat) (file : Option OpenFile) :
    Accounted (newTransfer type opsRead opsWrite uiRead uiWrite dataNotSent size file) := by
  have fits := toNat_lt size
  refine ⟨known, fits, ?_, fun _ _ => Nat.le_refl 0, fun _ => Nat.zero_le _⟩
  intro _
  change 0 + subSize size.toNat 0 = size.toNat
  rw [subSize_eq (Nat.zero_le _) fits]
  omega

variable {xfer : PurpleXfer}

private theorem accounted_cancelled {cancelled : PurpleXfer} (known : 0 < cancelled.size)
    (fits : cancelled.size < sizeLimit) (ended : cancelled.ended = true)
    (within : cancelled.type = .receive → cancelled.written ≤ cancelled.size) :
    Accounted cancelled := by
  refine ⟨known, fits, ?_, ?_, within⟩
  · intro running
    rw [ended] at running
    cases running
  · intro running
    rw [ended] at running
    cases running

private theorem accounted_bytesSent (moved : PurpleXfer) (known : 0 < moved.size)
    (fits : moved.size < sizeLimit) {bytesSent : Nat} (bounded : bytesSent ≤ moved.size)
    (behind : moved.type = .receive → moved.written ≤ bytesSent) :
    Accounted (purpleXferSetBytesSent moved bytesSent) := by
  refine ⟨known, fits, ?_, fun _ => behind, fun receiving =>
    Nat.le_trans (behind receiving) bounded⟩
  intro _
  change bytesSent + subSize moved.size bytesSent = moved.size
  rw [subSize_eq bounded fits]
  omega

private theorem accounted_setSize (accounted : Accounted xfer) (running : xfer.ended = false)
    {size : UInt64} (known : 0 < size.toNat) (bounded : xfer.bytesSent ≤ size.toNat) :
    Accounted (purpleXferSetSize xfer size.toNat) := by
  have fits := toNat_lt size
  refine ⟨known, fits, ?_, accounted.behind, fun receiving =>
    Nat.le_trans (accounted.behind running receiving) bounded⟩
  intro _
  change xfer.bytesSent + subSize size.toNat xfer.bytesSent = size.toNat
  rw [subSize_eq bounded fits]
  omega

private theorem accounted_writeFile (accounted : Accounted xfer) (running : xfer.ended = false)
    (size : Nat) (answers : Answers) : Accounted (purpleXferWriteFile xfer size answers) := by
  have sum := accounted.sum running
  have behind := accounted.behind running
  simp only [purpleXferWriteFile]
  generalize clamped : (if xfer.size > 0 ∧ size > xfer.bytesRemaining then xfer.bytesRemaining
    else size) = count
  have bounded : count ≤ xfer.bytesRemaining := by
    rw [← clamped]
    split
    · exact Nat.le_refl _
    · have known := accounted.known
      omega
  have added : addSize xfer.bytesSent count = xfer.bytesSent + count := by
    have fits := accounted.fits
    exact addSize_eq (by omega)
  split
  · exact accounted_cancelled accounted.known accounted.fits rfl accounted.within
  · split
    · refine accounted_cancelled accounted.known accounted.fits rfl fun receiving => ?_
      have written := behind receiving
      change xfer.written + min answers.fileWrite count ≤ xfer.size
      omega
    · rw [added]
      refine accounted_bytesSent
        { xfer with written := xfer.written + min answers.fileWrite count }
        accounted.known accounted.fits ?_ fun receiving => ?_
      · change xfer.bytesSent + count ≤ xfer.size
        omega
      · have written := behind receiving
        change xfer.written + min answers.fileWrite count ≤ xfer.bytesSent + count
        omega

private theorem accounted_readFile (accounted : Accounted xfer) (running : xfer.ended = false)
    (size : Nat) {got : Int} (bounded : got ≤ xfer.bytesRemaining) (failed : Bool) :
    Accounted (purpleXferReadFile xfer size got failed).2 := by
  have sum := accounted.sum running
  simp only [purpleXferReadFile]
  generalize (if xfer.uiRead then decide (got > size)
    else xfer.destFp.isNone || (decide (got ≠ size) && failed)) = refused
  cases refused with
  | true => exact accounted_cancelled accounted.known accounted.fits rfl accounted.within
  | false =>
    simp only [Bool.false_eq_true, if_false]
    split
    · have added : addSize xfer.bytesSent got.toNat = xfer.bytesSent + got.toNat := by
        have fits := accounted.fits
        exact addSize_eq (by omega)
      rw [added]
      refine accounted_bytesSent xfer accounted.known accounted.fits (by omega) fun receiving => ?_
      have written := accounted.behind running receiving
      omega
    · exact accounted

private theorem accounted_count (known : 0 < xfer.size) (fits : xfer.size < sizeLimit)
    (sum : xfer.bytesSent + xfer.bytesRemaining = xfer.size) {r : Int}
    (bounded : r ≤ xfer.bytesRemaining)
    (behind : xfer.type = .receive → (xfer.written : Int) ≤ xfer.bytesSent + max r 0) :
    Accounted (countTransferred xfer r) := by
  unfold countTransferred
  by_cases moved : r > 0
  · have added : addSize xfer.bytesSent r.toNat = xfer.bytesSent + r.toNat :=
      addSize_eq (by omega)
    have left : subSize xfer.bytesRemaining r.toNat = xfer.bytesRemaining - r.toNat :=
      subSize_eq (by omega) (by omega)
    rw [if_pos moved, if_pos known, added, left]
    refine ⟨known, fits, ?_, ?_, ?_⟩
    · intro _
      change xfer.bytesSent + r.toNat + (xfer.bytesRemaining - r.toNat) = xfer.size
      omega
    · intro _ receiving
      have written := behind receiving
      change xfer.written ≤ xfer.bytesSent + r.toNat
      omega
    · intro receiving
      have written := behind receiving
      change xfer.written ≤ xfer.size
      omega
  · rw [if_neg moved]
    refine ⟨known, fits, fun _ => sum, ?_, ?_⟩
    · intro _ receiving
      have written := behind receiving
      omega
    · intro receiving
      have written := behind receiving
      omega

private theorem accounted_finish (known : 0 < xfer.size) (fits : xfer.size < sizeLimit)
    (sum : xfer.bytesSent + xfer.bytesRemaining = xfer.size) {r : Int}
    (bounded : r ≤ xfer.bytesRemaining)
    (behind : xfer.type = .receive → (xfer.written : Int) ≤ xfer.bytesSent + max r 0) :
    Accounted (finishTransfer xfer r) := by
  have counted := accounted_count known fits sum bounded behind
  unfold finishTransfer
  split
  · exact accounted_cancelled counted.known counted.fits rfl counted.within
  · exact counted

private theorem systemCount_le (limit : Nat) (answer : SystemCall) :
    systemCount limit answer ≤ limit := by
  cases answer with
  | count bytes =>
    change ((min bytes limit : Nat) : Int) ≤ limit
    omega
  | again => exact Int.natCast_nonneg limit
  | failed =>
    change (-1 : Int) ≤ limit
    omega

private theorem readCount_le (limit : Nat) (answer : SystemCall) :
    readCount limit answer ≤ limit := by
  have bounded := systemCount_le limit answer
  unfold readCount
  split
  · omega
  · split <;> omega

private def SameCounts (left right : PurpleXfer) : Prop :=
  left.type = right.type ∧ left.size = right.size ∧ left.bytesSent = right.bytesSent ∧
    left.bytesRemaining = right.bytesRemaining ∧ left.ended = right.ended ∧
    left.written = right.written ∧ left.opsWrite = right.opsWrite

private theorem accounted_same {other : PurpleXfer} (accounted : Accounted xfer)
    (same : SameCounts other xfer) : Accounted other := by
  obtain ⟨type, size, sent, remaining, ended, written, -⟩ := same
  refine ⟨?_, ?_, ?_, ?_, ?_⟩
  · rw [size]
    exact accounted.known
  · rw [size]
    exact accounted.fits
  · rw [size, sent, remaining, ended]
    exact accounted.sum
  · rw [type, sent, ended, written]
    exact accounted.behind
  · rw [type, size, written]
    exact accounted.within

private theorem sameCounts_increase (xfer : PurpleXfer) (grows : Prop) [Decidable grows] :
    SameCounts (if grows then purpleXferIncreaseBufferSize xfer else xfer) xfer := by
  by_cases full : grows
  · rw [if_pos full]
    exact ⟨rfl, rfl, rfl, rfl, rfl, rfl, rfl⟩
  · rw [if_neg full]
    exact ⟨rfl, rfl, rfl, rfl, rfl, rfl, rfl⟩

private theorem sameCounts_complete (xfer : PurpleXfer) (bytes : Nat) (completes : Prop)
    [Decidable completes] :
    SameCounts (if completes then completeAt xfer bytes else xfer) xfer := by
  unfold completeAt
  by_cases full : completes
  · rw [if_pos full]
    split <;> exact ⟨rfl, rfl, rfl, rfl, rfl, rfl, rfl⟩
  · rw [if_neg full]
    exact ⟨rfl, rfl, rfl, rfl, rfl, rfl, rfl⟩

private theorem purpleXferRead_spec (known : 0 < xfer.size)
    (callback : xfer.opsRead = true → answers.opsRead ≤ xfer.bytesRemaining) :
    (purpleXferRead xfer answers).1 ≤ xfer.bytesRemaining ∧
      SameCounts (purpleXferRead xfer answers).2 xfer := by
  simp only [purpleXferRead]
  rw [if_neg (Nat.ne_of_gt known)]
  constructor
  · split
    · exact callback ‹_›
    · have limited := readCount_le (min xfer.bytesRemaining xfer.currentBufferSize) answers.read
      omega
  · exact sameCounts_increase xfer _

private theorem accounted_receive (accounted : Accounted xfer) (running : xfer.ended = false)
    {r : Int} (bounded : r ≤ xfer.bytesRemaining) (answers : Answers) :
    Accounted (receiveData xfer r answers) := by
  have sum := accounted.sum running
  have behind := accounted.behind running
  have known := accounted.known
  have fits := accounted.fits
  unfold receiveData
  by_cases moved : r > 0
  · simp only [if_pos moved]
    split
    · refine accounted_cancelled known fits rfl fun receiving => ?_
      have written := behind receiving
      change xfer.written + min answers.fileWrite r.toNat ≤ xfer.size
      omega
    · rename_i complete
      unfold completeAt
      have done : xfer.type = .receive →
          ((xfer.written + min answers.fileWrite r.toNat : Nat) : Int) ≤ xfer.bytesSent + max r 0 := by
        intro receiving
        have written := behind receiving
        omega
      split
      · exact @accounted_finish
          { xfer with written := xfer.written + min answers.fileWrite r.toNat, status := .done }
          known fits sum r bounded done
      · exact @accounted_finish
          { xfer with written := xfer.written + min answers.fileWrite r.toNat }
          known fits sum r bounded done
  · simp only [if_neg moved]
    have same : xfer.type = .receive → (xfer.written : Int) ≤ xfer.bytesSent + max r 0 := by
      intro receiving
      have written := behind receiving
      omega
    split
    · exact accounted_cancelled known fits rfl accounted.within
    · exact accounted_finish known fits sum bounded same

private theorem readData_same {wanted : Option Nat} {bytes : List UInt8} {read : PurpleXfer}
    (result : readData xfer answers wanted = .data bytes read) : SameCounts read xfer := by
  cases wanted with
  | none =>
    cases result
    exact ⟨rfl, rfl, rfl, rfl, rfl, rfl, rfl⟩
  | some s =>
    simp only [readData] at result
    split at result
    · split at result
      · cases result
      · cases result
      · cases result
        exact ⟨rfl, rfl, rfl, rfl, rfl, rfl, rfl⟩
    · split at result
      · cases result
      · split at result
        · cases result
        · cases result
          exact ⟨rfl, rfl, rfl, rfl, rfl, rfl, rfl⟩

private theorem purpleXferWrite_spec (xfer : PurpleXfer) (data : List UInt8)
    (callback : xfer.opsWrite = true → answers.opsWrite ≤ xfer.bytesRemaining) :
    (purpleXferWrite xfer data answers).1 ≤ xfer.bytesRemaining ∧
      SameCounts (purpleXferWrite xfer data answers).2 xfer := by
  unfold purpleXferWrite
  split
  · exact ⟨Int.natCast_nonneg _, rfl, rfl, rfl, rfl, rfl, rfl, rfl⟩
  · constructor
    · simp only
      split
      · exact callback ‹_›
      · have limited := systemCount_le (min xfer.bytesRemaining data.length) answers.write
        omega
    · exact sameCounts_complete { xfer with socket := xfer.socket ++ data.take _ } _ _

private theorem accounted_sendData (accounted : Accounted xfer) (running : xfer.ended = false)
    (sending : xfer.type = .send) {r : Int} (bounded : r ≤ xfer.bytesRemaining) (length : Nat) :
    Accounted (sendData xfer r length) := by
  have finished : ∀ moved : PurpleXfer, SameCounts moved xfer →
      Accounted (finishTransfer moved r) := by
    intro moved same
    have movedAccounted := accounted_same accounted same
    refine accounted_finish movedAccounted.known movedAccounted.fits
      (movedAccounted.sum (same.2.2.2.2.1.trans running)) (by rw [same.2.2.2.1]; exact bounded)
      fun receiving => ?_
    rw [same.1, sending] at receiving
    cases receiving
  unfold sendData
  split
  · exact accounted_cancelled accounted.known accounted.fits rfl accounted.within
  · simp only
    split <;> exact finished _ ⟨rfl, rfl, rfl, rfl, rfl, rfl, rfl⟩

private theorem accounted_writeData (accounted : Accounted xfer) (running : xfer.ended = false)
    (sending : xfer.type = .send) (data : List UInt8)
    (callback : xfer.opsWrite = true → answers.opsWrite ≤ xfer.bytesRemaining) :
    Accounted (writeData xfer data answers) := by
  obtain ⟨bounded, same⟩ := purpleXferWrite_spec xfer data callback
  refine accounted_sendData (accounted_same accounted same) (same.2.2.2.2.1.trans running)
    (same.1.trans sending) ?_ data.length
  rw [same.2.2.2.1]
  exact bounded

private theorem accounted_send (accounted : Accounted xfer) (running : xfer.ended = false)
    (sending : xfer.type = .send)
    (callback : xfer.opsWrite = true → answers.opsWrite ≤ xfer.bytesRemaining) :
    Accounted (doTransferSend xfer answers) := by
  unfold doTransferSend
  split
  · exact accounted
  · cases result : readData xfer answers (readSize xfer) with
    | failed => exact accounted_cancelled accounted.known accounted.fits rfl accounted.within
    | nothingYet => exact accounted
    | data bytes read =>
      have same := readData_same result
      have readAccounted := accounted_same accounted same
      obtain ⟨type, -, -, remaining, ended, -, opsWrite⟩ := same
      have readRunning : read.ended = false := ended.trans running
      have readSending : read.type = .send := type.trans sending
      have readCallback : read.opsWrite = true → answers.opsWrite ≤ read.bytesRemaining := by
        rw [opsWrite, remaining]
        exact callback
      cases held : read.buffer with
      | none =>
        simp only [held]
        exact accounted_writeData readAccounted readRunning readSending bytes readCallback
      | some pending =>
        simp only [held]
        have extended : SameCounts { read with buffer := some (pending ++ bytes) } read :=
          ⟨rfl, rfl, rfl, rfl, rfl, rfl, rfl⟩
        exact accounted_writeData (accounted_same readAccounted extended) readRunning
          readSending (pending ++ bytes) readCallback

/-- While the known size and the position stay within each other and callbacks
move no more than remains, the counts are those of natural numbers. -/
theorem transfer_accounts (type : XferType) (opsRead opsWrite uiRead uiWrite dataNotSent : Bool)
    {size : UInt64} (known : 0 < size.toNat) (file : Option OpenFile) {calls done : List Call}
    (admitted : PartialRun.Admitted call admits
      (newTransfer type opsRead opsWrite uiRead uiWrite dataNotSent size file) calls)
    (initial : done <+: calls) :
    ∃ last, PartialRun.run call
        (newTransfer type opsRead opsWrite uiRead uiWrite dataNotSent size file) done = some last ∧
      Accounts last := by
  have kept : ∀ xfer made, Accounted xfer → admits xfer made →
      ∃ next, call xfer made = some next ∧ Accounted next := by
    intro xfer made accounted allowed
    cases made with
    | setSize size =>
      exact ⟨_, rfl, accounted_setSize accounted allowed.1 allowed.2.1 allowed.2.2⟩
    | setBytesSent bytesSent =>
      exact ⟨_, rfl,
        accounted_bytesSent xfer accounted.known accounted.fits allowed.2.1 allowed.2.2⟩
    | writeFile size answers =>
      exact ⟨_, rfl, accounted_writeFile accounted allowed size.toNat answers⟩
    | readFile size got failed =>
      exact ⟨_, rfl, accounted_readFile accounted allowed.1 size.toNat allowed.2 failed⟩
    | doTransfer answers =>
      obtain ⟨running, callback⟩ := allowed
      refine ⟨_, rfl, ?_⟩
      unfold doTransfer
      cases ofType : xfer.type with
      | receive =>
        rw [ofType] at callback
        obtain ⟨bounded, same⟩ := purpleXferRead_spec accounted.known callback
        refine accounted_receive (accounted_same accounted same)
          (same.2.2.2.2.1.trans running) ?_ answers
        rw [same.2.2.2.1]
        exact bounded
      | send =>
        rw [ofType] at callback
        exact accounted_send accounted running ofType callback
  obtain ⟨last, ran, accounted⟩ := PartialRun.reached Accounted kept
    (accounted_new type opsRead opsWrite uiRead uiWrite dataNotSent known file) admitted initial
  exact ⟨last, ran, accounted.sum, accounted.within⟩

def readsTwo : Answers :=
  { opsRead := 2, read := .again, fileWrite := 2, uiRead := none, opsWrite := 0, write := .again }

theorem transfer_accounts_two :
    ∃ last, PartialRun.run call
        (newTransfer .receive true false false false false 2 (some { content := [], position := 0 }))
        [.doTransfer readsTwo] = some last ∧ Accounts last := by
  refine transfer_accounts .receive true false false false false (by decide) _ ?_
    (List.prefix_refl [Call.doTransfer readsTwo])
  exact ⟨⟨rfl, fun _ => by decide⟩, fun _ _ => trivial⟩

/-- A size of one is passed by two bytes, and the bytes remaining wrap. -/
theorem callback_passes_size :
    ¬ ∀ (type : XferType) (opsRead opsWrite uiRead uiWrite dataNotSent : Bool) (size : UInt64)
      (file : Option OpenFile) (calls : List Call) (last : PurpleXfer), 0 < size.toNat →
      PartialRun.run call
        (newTransfer type opsRead opsWrite uiRead uiWrite dataNotSent size file) calls = some last →
      Accounts last := by
  intro always
  have accounts := always .receive true false false false false 1
    (some { content := [], position := 0 }) [.doTransfer readsTwo] _ (by decide) rfl
  have within := accounts.2 rfl
  exact absurd within (by decide)

end Purple.Ft
