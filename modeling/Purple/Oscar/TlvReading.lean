/-
When the readers of TLV chains return, and how far they read.
-/

import Purple.Oscar.Tlv

namespace Purple.Oscar

open List

/-! ### One record -/

inductive Next (bytes : Bytes) : Prop
  | done (empty : bytes = [])
  | lone (one : bytes.length = 1)
  | header (two : 2 ≤ bytes.length) (short : bytes.length < 4)
  | whole (tlv : AimTlv) (more : Bytes) (split : bytes = tlvBytes tlv ++ more)
  | truncated (four : 4 ≤ bytes.length)
      (short : bytes.length - 4 < (aimutilGet16 (bytes.drop 2)).toNat)

variable {result : List AimTlv × ByteStream}

theorem next_cases (bytes : Bytes) : Next bytes := by
  match bytes with
  | [] => exact .done rfl
  | [byte] => exact .lone rfl
  | [first, second] => exact .header (Nat.le_refl 2) (Nat.le_succ 3)
  | [first, second, third] => exact .header (Nat.le_succ 2) (Nat.le_refl 4)
  | first :: second :: third :: fourth :: rest =>
    have number : aimutilGet16 ((first :: second :: third :: fourth :: rest).drop 2) =
        aimutilGet16 [third, fourth] := rfl
    by_cases fit : (aimutilGet16 [third, fourth]).toNat ≤ rest.length
    · have bound : (rest.take (aimutilGet16 [third, fourth]).toNat).length < 65536 :=
        Nat.lt_of_le_of_lt (length_take_le _ _) (aimutilGet16 [third, fourth]).toNat_lt
      refine .whole ⟨aimutilGet16 [first, second], _, bound⟩
        (rest.drop (aimutilGet16 [third, fourth]).toNat) ?_
      have length : UInt16.ofNat (rest.take (aimutilGet16 [third, fourth]).toNat).length =
          aimutilGet16 [third, fourth] := by
        rw [length_take, Nat.min_eq_left fit, UInt16.ofNat_toNat]
      rw [tlvBytes, AimTlv.length, length, put16_get16, put16_get16, append_assoc,
        take_append_drop]
      rfl
    · refine .truncated (Nat.le_add_left 4 _) ?_
      rw [number]
      exact Nat.lt_of_not_le fit

section Read

variable {bs : ByteStream} (list : List AimTlv)

theorem aimTlvRead_lone (one : bs.rest.length = 1) :
    aimTlvRead list bs = (createtlv 0 0 [] :: list, bs) := by
  have short : bs.get16 = (0, bs) := ByteStream.get16_short (by omega)
  unfold aimTlvRead
  simp only [short]
  rfl

theorem aimTlvRead_header (two : 2 ≤ bs.rest.length) (short : bs.rest.length < 4) :
    aimTlvRead list bs = (createtlv (aimutilGet16 bs.rest) 0 [] :: list, bs.skip 2) := by
  have type := ByteStream.get16_enough two
  have length : (bs.skip 2).get16 = (0, bs.skip 2) := by
    refine ByteStream.get16_short ?_
    rw [ByteStream.rest_skip, List.length_drop]
    omega
  unfold aimTlvRead
  simp only [type, length]
  rfl

theorem get16_twice (four : 4 ≤ bs.rest.length) :
    bs.get16 = (aimutilGet16 bs.rest, bs.skip 2) ∧
      (bs.skip 2).get16 = (aimutilGet16 (bs.rest.drop 2), bs.skip 4) := by
  refine ⟨ByteStream.get16_enough (by omega), ?_⟩
  rw [ByteStream.get16_enough, ByteStream.rest_skip]
  · rfl
  · rw [ByteStream.rest_skip, List.length_drop]
    omega

theorem aimTlvRead_truncated (four : 4 ≤ bs.rest.length)
    (short : bs.rest.length - 4 < (aimutilGet16 (bs.rest.drop 2)).toNat) :
    aimTlvRead list bs = ([], bs.skip 4) := by
  obtain ⟨type, length⟩ := get16_twice four
  have left : (bs.skip 4).bytesLeft = bs.rest.length - 4 := by
    rw [← ByteStream.rest_length, ByteStream.rest_skip, List.length_drop]
  unfold aimTlvRead
  simp only [type, length, left]
  rw [if_pos short]

theorem aimTlvRead_whole {tlv : AimTlv} {more : Bytes} (split : bs.rest = tlvBytes tlv ++ more) :
    aimTlvRead list bs = (tlv :: list, bs.skip (4 + tlv.value.length)) := by
  obtain ⟨typeRead, lengthRead, behind⟩ := tlvBytes_get tlv more
  have total : bs.rest.length = 4 + tlv.value.length + more.length := by
    rw [split, length_append, tlvBytes_length]
  obtain ⟨type, length⟩ := @get16_twice bs (by omega)
  have left : (bs.skip 4).bytesLeft = bs.rest.length - 4 := by
    rw [← ByteStream.rest_length, ByteStream.rest_skip, List.length_drop]
  unfold aimTlvRead
  simp only [type, length]
  rw [split, typeRead, lengthRead, tlv.length_toNat, left, if_neg (by omega)]
  by_cases empty : tlv.value.length = 0
  · have nothing : tlv.value = [] := length_eq_zero_iff.mp empty
    have same : createtlv tlv.type tlv.length [] = tlv := by
      refine AimTlv.ext rfl ?_
      rw [nothing]
      exact take_nil
    rw [empty, if_neg (Nat.lt_irrefl 0), same]
  · have raw : (bs.skip 4).getraw tlv.value.length =
        (some tlv.value, bs.skip (4 + tlv.value.length)) := by
      rw [ByteStream.getraw, if_pos (by omega), ByteStream.rest_skip, split, behind,
        take_left' rfl, ByteStream.skip_skip]
    have same : createtlv tlv.type tlv.length tlv.value = tlv := by
      refine AimTlv.ext rfl ?_
      change tlv.value.take tlv.length.toNat = tlv.value
      rw [tlv.length_toNat, take_length]
    rw [if_pos (Nat.pos_of_ne_zero empty), raw]
    simp only [same]

theorem aimTlvRead_moves (inside : bs.offset ≤ bs.data.length) (nonempty : 0 < bs.bytesLeft) :
    (aimTlvRead list bs).2.data = bs.data ∧ bs.offset ≤ (aimTlvRead list bs).2.offset ∧
      (aimTlvRead list bs).2.offset ≤ bs.data.length := by
  have length : bs.rest.length = bs.data.length - bs.offset := bs.rest_length
  cases next_cases bs.rest with
  | done empty =>
    rw [← bs.rest_length, empty] at nonempty
    exact absurd nonempty (Nat.lt_irrefl 0)
  | lone one =>
    rw [aimTlvRead_lone list one]
    exact ⟨rfl, Nat.le_refl _, inside⟩
  | header two short =>
    rw [aimTlvRead_header list two short]
    refine ⟨rfl, Nat.le_add_right _ _, ?_⟩
    change bs.offset + 2 ≤ _
    omega
  | whole tlv more split =>
    rw [aimTlvRead_whole list split]
    refine ⟨rfl, Nat.le_add_right _ _, ?_⟩
    have total := congrArg List.length split
    rw [length_append, tlvBytes_length] at total
    change bs.offset + (4 + tlv.value.length) ≤ _
    omega
  | truncated four short =>
    rw [aimTlvRead_truncated list four short]
    refine ⟨rfl, Nat.le_add_right _ _, ?_⟩
    change bs.offset + 4 ≤ _
    omega

end Read

/-! ### The loop -/

section Loop

variable {goes : UInt16 → Bool} {next : UInt16 → AimTlv → UInt16} {counter : UInt16}
  {list : List AimTlv} {bs : ByteStream}

variable {rounds : Nat} {result : List AimTlv × ByteStream}

theorem loop_stops (stop : ¬(0 < bs.bytesLeft ∧ goes counter = true)) (rounds : Nat) :
    tlvlistLoop goes next (rounds + 1) counter list bs = some (list.reverse, bs) := by
  rw [tlvlistLoop, if_neg stop]

theorem loop_ends (empty : bs.rest = []) (rounds : Nat) :
    tlvlistLoop goes next (rounds + 1) counter list bs = some (list.reverse, bs) := by
  refine loop_stops ?_ rounds
  rw [← bs.rest_length, empty]
  exact fun both => Nat.lt_irrefl 0 both.1

theorem loop_fails (more : 0 < bs.bytesLeft) (on : goes counter = true) {left : ByteStream}
    (failed : aimTlvRead list bs = ([], left)) (rounds : Nat) :
    tlvlistLoop goes next (rounds + 1) counter list bs = some ([], left) := by
  rw [tlvlistLoop, if_pos ⟨more, on⟩, failed]

theorem loop_reads (more : 0 < bs.bytesLeft) (on : goes counter = true) {tlv : AimTlv}
    {left : ByteStream} (read : aimTlvRead list bs = (tlv :: list, left)) (rounds : Nat) :
    tlvlistLoop goes next (rounds + 1) counter list bs =
      tlvlistLoop goes next rounds (next counter tlv) (tlv :: list) left := by
  rw [tlvlistLoop, if_pos ⟨more, on⟩, read]

theorem loop_pair (two : bs.rest.length = 2) (on : goes counter = true) (rounds : Nat) :
    tlvlistLoop goes next (rounds + 2) counter list bs =
      some ((createtlv (aimutilGet16 bs.rest) 0 [] :: list).reverse, bs.skip 2) := by
  have nonempty : 0 < bs.bytesLeft := by
    rw [← bs.rest_length, two]
    exact Nat.succ_pos 1
  have read := aimTlvRead_header list (Nat.le_of_eq two.symm)
    (Nat.lt_of_le_of_lt (Nat.le_of_eq two) (by decide))
  have nothing : (bs.skip 2).rest = [] := by
    rw [ByteStream.rest_skip, drop_eq_nil_iff]
    exact Nat.le_of_eq two
  rw [loop_reads nonempty on read, loop_ends nothing]

theorem loop_moves (ran : tlvlistLoop goes next rounds counter list bs = some result)
    (inside : bs.offset ≤ bs.data.length) :
    result.2.data = bs.data ∧ bs.offset ≤ result.2.offset ∧
      result.2.offset ≤ bs.data.length := by
  induction rounds generalizing counter list bs with
  | zero => cases ran
  | succ rounds ih =>
    by_cases on : 0 < bs.bytesLeft ∧ goes counter = true
    · obtain ⟨data, forward, bounded⟩ := aimTlvRead_moves list inside on.1
      rw [tlvlistLoop, if_pos on] at ran
      generalize aimTlvRead list bs = read at ran data forward bounded
      obtain ⟨records, left⟩ := read
      cases records with
      | nil =>
        cases ran
        exact ⟨data, forward, bounded⟩
      | cons tlv before =>
        have within : left.offset ≤ left.data.length := by
          rw [data]
          exact bounded
        obtain ⟨later, further, final⟩ := ih ran within
        exact ⟨later.trans data, Nat.le_trans forward further, data ▸ final⟩
    · rw [loop_stops on] at ran
      cases ran
      exact ⟨rfl, Nat.le_refl _, inside⟩

theorem loop_whole {tlv : AimTlv} {more : Bytes} (split : bs.rest = tlvBytes tlv ++ more)
    (on : goes counter = true) (rounds : Nat) :
    tlvlistLoop goes next (rounds + 1) counter list bs =
      tlvlistLoop goes next rounds (next counter tlv) (tlv :: list)
        (bs.skip (tlvBytes tlv).length) := by
  have nonempty : 0 < bs.bytesLeft := by
    rw [← bs.rest_length, split, length_append, tlvBytes_length]
    omega
  rw [tlvBytes_length]
  exact loop_reads nonempty on (aimTlvRead_whole list split) rounds

def counterAfter (next : UInt16 → AimTlv → UInt16) (counter : UInt16) (tlvs : List AimTlv) :
    UInt16 := tlvs.foldl next counter

def GoesOver (goes : UInt16 → Bool) (next : UInt16 → AimTlv → UInt16) (counter : UInt16)
    (tlvs : List AimTlv) : Prop :=
  ∀ front tlv rest, tlvs = front ++ tlv :: rest → goes (counterAfter next counter front) = true

theorem goesOver_cons {tlv : AimTlv} {tlvs : List AimTlv}
    (passes : GoesOver goes next counter (tlv :: tlvs)) :
    goes counter = true ∧ GoesOver goes next (next counter tlv) tlvs :=
  ⟨passes [] tlv tlvs rfl, fun front other rest split => passes (tlv :: front) other rest
    (congrArg (List.cons tlv) split)⟩

theorem loop_over {tlvs : List AimTlv} (passes : GoesOver goes next counter tlvs) {more : Bytes}
    (split : bs.rest = tlvsBytes tlvs ++ more) (rounds : Nat) :
    tlvlistLoop goes next (tlvs.length + rounds) counter list bs =
      tlvlistLoop goes next rounds (counterAfter next counter tlvs) (tlvs.reverse ++ list)
        (bs.skip (tlvsBytes tlvs).length) := by
  induction tlvs generalizing counter list bs with
  | nil =>
    rw [length_nil, Nat.zero_add]
    rfl
  | cons tlv tlvs ih =>
    obtain ⟨on, later⟩ := goesOver_cons passes
    rw [tlvsBytes_cons, append_assoc] at split
    have behind : (bs.skip (tlvBytes tlv).length).rest = tlvsBytes tlvs ++ more := by
      rw [ByteStream.rest_skip, split, drop_left' rfl]
    have rounded : (tlv :: tlvs).length + rounds = tlvs.length + rounds + 1 := by
      rw [length_cons]
      omega
    rw [rounded, loop_whole split on, ih later behind, tlvsBytes_cons, length_append,
      ByteStream.skip_skip, reverse_cons, append_assoc]
    rfl

theorem loop_more (ran : tlvlistLoop goes next rounds counter list bs = some result) (more : Nat) :
    tlvlistLoop goes next (rounds + more) counter list bs = some result := by
  induction rounds generalizing counter list bs with
  | zero => cases ran
  | succ rounds ih =>
    rw [Nat.succ_add]
    rw [tlvlistLoop] at ran ⊢
    by_cases on : 0 < bs.bytesLeft ∧ goes counter = true
    · rw [if_pos on] at ran ⊢
      generalize aimTlvRead list bs = read at ran ⊢
      obtain ⟨records, left⟩ := read
      cases records with
      | nil => exact ran
      | cons tlv before => exact ih ran
    · rw [if_neg on] at ran ⊢
      exact ran

theorem loop_behind {tlvs : List AimTlv} (passes : GoesOver goes next counter tlvs) {more : Bytes}
    (split : bs.rest = tlvsBytes tlvs ++ more)
    (ran : tlvlistLoop goes next rounds counter list bs = some result) :
    tlvlistLoop goes next rounds (counterAfter next counter tlvs) (tlvs.reverse ++ list)
      (bs.skip (tlvsBytes tlvs).length) = some result := by
  rw [← loop_over passes split rounds, Nat.add_comm]
  exact loop_more ran tlvs.length

theorem loop_lone (always : ∀ counter, goes counter = true) (one : bs.rest.length = 1)
    (rounds : Nat) : tlvlistLoop goes next rounds counter list bs = none := by
  induction rounds generalizing counter list with
  | zero => rfl
  | succ rounds ih =>
    have nonempty : 0 < bs.bytesLeft := by
      rw [← bs.rest_length, one]
      exact Nat.one_pos
    rw [loop_reads nonempty (always counter) (aimTlvRead_lone list one), ih]

theorem loop_takes (inside : bs.offset ≤ bs.data.length) (on : goes counter = true)
    (ran : tlvlistLoop goes next rounds counter list bs = some result) :
    (2 ≤ bs.rest.length → bs.offset + 2 ≤ result.2.offset) ∧
      (4 ≤ bs.rest.length → bs.offset + 4 ≤ result.2.offset) ∧
      ∀ tlv more, bs.rest = tlvBytes tlv ++ more →
        bs.offset + (tlvBytes tlv).length ≤ result.2.offset := by
  have length : bs.rest.length = bs.data.length - bs.offset := bs.rest_length
  have afterWhole : ∀ tlv more, bs.rest = tlvBytes tlv ++ more →
      bs.offset + (tlvBytes tlv).length ≤ result.2.offset := by
    intro tlv more split
    cases rounds with
    | zero => cases ran
    | succ rounds =>
      rw [loop_whole split on] at ran
      refine (loop_moves ran ?_).2.1
      have total := congrArg List.length split
      rw [length_append] at total
      change bs.offset + _ ≤ bs.data.length
      omega
  have nonempty : 2 ≤ bs.rest.length → 0 < bs.bytesLeft := by
    intro two
    rw [← bs.rest_length]
    omega
  cases next_cases bs.rest with
  | done empty =>
    rw [empty]
    exact ⟨nofun, nofun, fun tlv more split => afterWhole tlv more (empty.trans split)⟩
  | lone one => exact ⟨by omega, by omega, afterWhole⟩
  | header two short =>
    refine ⟨fun _ => ?_, by omega, afterWhole⟩
    cases rounds with
    | zero => cases ran
    | succ rounds =>
      rw [loop_reads (nonempty two) on (aimTlvRead_header list two short)] at ran
      refine (loop_moves ran ?_).2.1
      change bs.offset + 2 ≤ bs.data.length
      omega
  | whole tlv more split =>
    have reached := afterWhole tlv more split
    rw [tlvBytes_length] at reached
    exact ⟨by omega, by omega, afterWhole⟩
  | truncated four short =>
    have reached : bs.offset + 4 ≤ result.2.offset := by
      cases rounds with
      | zero => cases ran
      | succ rounds =>
        rw [loop_fails (nonempty (by omega)) on (aimTlvRead_truncated list four short)] at ran
        cases ran
        exact Nat.le_refl _
    exact ⟨by omega, fun _ => reached, afterWhole⟩

end Loop

/-! ### The three readers -/

/-- No number of whole records leaves one byte or three. -/
def Framed (bytes : Bytes) : Prop :=
  ∀ tlvs more, bytes = tlvsBytes tlvs ++ more → more.length ≠ 1 ∧ more.length ≠ 3

/-- What is read next, behind whole records of less than `len` bytes, ends
within the `len` bytes. -/
def Contained (len : Nat) (bytes : Bytes) : Prop :=
  ∀ tlvs more, bytes = tlvsBytes tlvs ++ more → (tlvsBytes tlvs).length < len →
    (2 ≤ more.length → (tlvsBytes tlvs).length + 2 ≤ len) ∧
      (4 ≤ more.length → (tlvsBytes tlvs).length + 4 ≤ len) ∧
      ∀ tlv behind, more = tlvBytes tlv ++ behind →
        (tlvsBytes tlvs).length + (tlvBytes tlv).length ≤ len

/-- The reader returns and has not moved the position past `limit`. -/
def ReturnsWithin (bs : ByteStream) (limit : Nat)
    (reader : Nat → Option (List AimTlv × ByteStream)) : Prop :=
  ∃ rounds result, reader rounds = some result ∧ result.2.data = bs.data ∧
    bs.offset ≤ result.2.offset ∧ result.2.offset ≤ limit

structure TotalAndBounded (bs : ByteStream) (num len : UInt16) : Prop where
  read : ReturnsWithin bs bs.data.length fun rounds => aimTlvlistRead rounds bs
  readnum : ReturnsWithin bs bs.data.length fun rounds => aimTlvlistReadnum rounds bs num
  readlen : ReturnsWithin bs (min bs.data.length (bs.offset + len.toNat))
    fun rounds => aimTlvlistReadlen rounds bs len

theorem front_cases {tlv : AimTlv} {more rest : Bytes} {tlvs : List AimTlv}
    (same : tlvBytes tlv ++ more = tlvsBytes tlvs ++ rest) :
    tlvs = [] ∧ rest = tlvBytes tlv ++ more ∨
      ∃ later, tlvs = tlv :: later ∧ more = tlvsBytes later ++ rest := by
  cases tlvs with
  | nil => exact .inl ⟨rfl, same.symm⟩
  | cons other later =>
    rw [tlvsBytes_cons, append_assoc] at same
    obtain ⟨records, rests⟩ := tlvBytes_injective same
    exact .inr ⟨later, by rw [records], rests⟩

theorem framed_behind {tlv : AimTlv} {more : Bytes} (framed : Framed (tlvBytes tlv ++ more)) :
    Framed more := by
  intro tlvs rest split
  refine framed (tlv :: tlvs) rest ?_
  rw [tlvsBytes_cons, append_assoc, ← split]

theorem readlen_counter {len : UInt16} {tlvs : List AimTlv}
    (within : (tlvsBytes tlvs).length ≤ len.toNat) :
    (counterAfter (fun len tlv => len - (2 + 2 + tlv.length)) len tlvs).toNat =
      len.toNat - (tlvsBytes tlvs).length := by
  induction tlvs generalizing len with
  | nil => rfl
  | cons tlv tlvs ih =>
    rw [tlvsBytes_cons, length_append, tlvBytes_length] at within ⊢
    have bound := len.toNat_lt
    have size : (2 + 2 + tlv.length).toNat = 4 + tlv.value.length := by
      rw [UInt16.toNat_add, tlv.length_toNat]
      change (4 + tlv.value.length) % 65536 = _
      omega
    have left : (len - (2 + 2 + tlv.length)).toNat = len.toNat - (4 + tlv.value.length) := by
      rw [UInt16.toNat_sub_of_le _ _ (UInt16.le_iff_toNat_le.mpr (by omega)), size]
    change (counterAfter _ (len - (2 + 2 + tlv.length)) tlvs).toNat = _
    rw [ih (by omega), left]
    omega

theorem readlen_over {len : UInt16} {tlvs : List AimTlv}
    (within : (tlvsBytes tlvs).length ≤ len.toNat) :
    GoesOver (fun len => 0 < len) (fun len tlv => len - (2 + 2 + tlv.length)) len tlvs := by
  intro front tlv rest split
  rw [split, tlvsBytes_append, tlvsBytes_cons, length_append, length_append,
    tlvBytes_length] at within
  have counter := @readlen_counter len front (by omega)
  refine decide_eq_true (UInt16.lt_iff_toNat_lt.mpr ?_)
  rw [counter]
  change 0 < _
  omega

section Returns

variable {goes : UInt16 → Bool} {next : UInt16 → AimTlv → UInt16}

theorem loop_returns {counter : UInt16} {list : List AimTlv} {bs : ByteStream}
    (framed : Framed bs.rest) :
    ∃ rounds result, tlvlistLoop goes next rounds counter list bs = some result := by
  induction size : bs.rest.length using Nat.strongRecOn generalizing counter list bs with
  | ind total ih =>
  by_cases on : 0 < bs.bytesLeft ∧ goes counter = true
  · cases next_cases bs.rest with
    | done empty =>
      rw [← bs.rest_length, empty] at on
      exact absurd on.1 (Nat.lt_irrefl 0)
    | lone one => exact absurd one (framed [] _ rfl).1
    | header two short =>
      have three : bs.rest.length ≠ 3 := (framed [] bs.rest rfl).2
      exact ⟨2, _, loop_pair (by omega) on.2 0⟩
    | whole tlv more split =>
      have behind : (bs.skip (tlvBytes tlv).length).rest = more := by
        rw [ByteStream.rest_skip, split, drop_left' rfl]
      have shorter : (bs.skip (tlvBytes tlv).length).rest.length < total := by
        rw [behind, ← size, split, length_append, tlvBytes_length]
        omega
      rw [split] at framed
      obtain ⟨rounds, result, ran⟩ := @ih _ shorter (next counter tlv) (tlv :: list) _
        (behind ▸ framed_behind framed) rfl
      exact ⟨rounds + 1, result, by rw [loop_whole split on.2, ran]⟩
    | truncated four short =>
      exact ⟨1, _, loop_fails on.1 on.2 (aimTlvRead_truncated list four short) 0⟩
  · exact ⟨1, _, loop_stops on 0⟩

end Returns

theorem contained_behind {tlv : AimTlv} {more : Bytes} {len : Nat}
    (contained : Contained len (tlvBytes tlv ++ more)) (room : (tlvBytes tlv).length ≤ len) :
    Contained (len - (tlvBytes tlv).length) more := by
  intro tlvs rest split within
  have whole : tlvBytes tlv ++ more = tlvsBytes (tlv :: tlvs) ++ rest := by
    rw [tlvsBytes_cons, append_assoc, ← split]
  have size : (tlvsBytes (tlv :: tlvs)).length = (tlvBytes tlv).length + (tlvsBytes tlvs).length := by
    rw [tlvsBytes_cons, length_append]
  obtain ⟨two, four, next⟩ := contained (tlv :: tlvs) rest whole (by omega)
  rw [size] at two four next
  refine ⟨fun more => ?_, fun more => ?_, fun other behind next' => ?_⟩
  · have bound := two more
    omega
  · have bound := four more
    omega
  · have bound := next other behind next'
    omega

theorem readlen_bounded {len : UInt16} {list : List AimTlv} {bs : ByteStream}
    (framed : Framed bs.rest) (contained : Contained len.toNat bs.rest) :
    ∃ rounds result, tlvlistLoop (fun len => 0 < len) (fun len tlv => len - (2 + 2 + tlv.length))
      rounds len list bs = some result ∧ result.2.offset ≤ bs.offset + len.toNat := by
  induction size : bs.rest.length using Nat.strongRecOn generalizing len list bs with
  | ind total ih =>
  by_cases on : 0 < bs.bytesLeft ∧ decide (0 < len) = true
  · have positive : 0 < len.toNat := UInt16.lt_iff_toNat_lt.mp (of_decide_eq_true on.2)
    obtain ⟨two, four, next⟩ := contained [] bs.rest rfl positive
    cases next_cases bs.rest with
    | done empty =>
      rw [← bs.rest_length, empty] at on
      exact absurd on.1 (Nat.lt_irrefl 0)
    | lone one => exact absurd one (framed [] bs.rest rfl).1
    | header enough short =>
      have three : bs.rest.length ≠ 3 := (framed [] bs.rest rfl).2
      have bound := two enough
      rw [tlvsBytes_nil, length_nil, Nat.zero_add] at bound
      exact ⟨2, _, loop_pair (by omega) on.2 0, Nat.add_le_add_left bound _⟩
    | whole tlv more split =>
      have bound := next tlv more split
      rw [tlvsBytes_nil, length_nil, Nat.zero_add] at bound
      have counter : (len - (2 + 2 + tlv.length)).toNat = len.toNat - (tlvBytes tlv).length := by
        have after := @readlen_counter len [tlv]
        rw [tlvsBytes_cons, tlvsBytes_nil, append_nil] at after
        exact after bound
      have behind : (bs.skip (tlvBytes tlv).length).rest = more := by
        rw [ByteStream.rest_skip, split, drop_left' rfl]
      have shorter : (bs.skip (tlvBytes tlv).length).rest.length < total := by
        rw [behind, ← size, split, length_append, tlvBytes_length]
        omega
      rw [split] at framed contained
      obtain ⟨rounds, result, ran, within⟩ := @ih _ shorter (len - (2 + 2 + tlv.length))
        (tlv :: list) (bs.skip (tlvBytes tlv).length) (behind ▸ framed_behind framed)
        (by rw [counter, behind]; exact contained_behind contained bound) rfl
      refine ⟨rounds + 1, result, ?_, ?_⟩
      · rw [loop_whole split on.2, ran]
      · rw [counter, ByteStream.skip_offset] at within
        omega
    | truncated enough short =>
      have bound := four enough
      rw [tlvsBytes_nil, length_nil, Nat.zero_add] at bound
      exact ⟨1, _, loop_fails on.1 on.2 (aimTlvRead_truncated list enough short) 0,
        Nat.add_le_add_left bound _⟩
  · exact ⟨1, _, loop_stops on 0, Nat.le_add_right _ _⟩

/-! ### The condition is necessary -/

theorem framed_of_read {rounds : Nat} {bs : ByteStream}
    (ran : aimTlvlistRead rounds bs = some result) : Framed bs.rest := by
  intro tlvs more split
  have passes : GoesOver (fun _ => true) (fun counter _ => counter) 0 tlvs := fun _ _ _ _ => rfl
  have behind : (bs.skip (tlvsBytes tlvs).length).rest = more := by
    rw [ByteStream.rest_skip, split, drop_left' rfl]
  have later := loop_behind passes split ran
  constructor
  · intro one
    rw [loop_lone (fun _ => rfl) (behind ▸ one)] at later
    cases later
  · intro three
    have nonempty : 0 < (bs.skip (tlvsBytes tlvs).length).bytesLeft := by
      rw [← ByteStream.rest_length, behind, three]
      exact Nat.succ_pos 2
    have one : ((bs.skip (tlvsBytes tlvs).length).skip 2).rest.length = 1 := by
      rw [ByteStream.rest_skip, behind, List.length_drop, three]
    cases rounds with
    | zero => cases ran
    | succ rounds =>
      rw [loop_reads nonempty rfl (aimTlvRead_header _ (by rw [behind]; omega)
        (by rw [behind]; omega)), loop_lone (fun _ => rfl) one] at later
      cases later

theorem contained_of_readlen {rounds : Nat} {bs : ByteStream} {len : UInt16}
    (ran : aimTlvlistReadlen rounds bs len = some result) (inside : bs.offset ≤ bs.data.length)
    (bounded : result.2.offset ≤ bs.offset + len.toNat) : Contained len.toNat bs.rest := by
  intro tlvs more split within
  have behind : (bs.skip (tlvsBytes tlvs).length).rest = more := by
    rw [ByteStream.rest_skip, split, drop_left' rfl]
  have size := congrArg List.length split
  rw [bs.rest_length, ByteStream.bytesLeft, length_append] at size
  have counter := readlen_counter (Nat.le_of_lt within)
  have later := loop_behind (readlen_over (Nat.le_of_lt within)) split ran
  have on : decide (0 < counterAfter (fun len tlv => len - (2 + 2 + tlv.length)) len tlvs) = true := by
    refine decide_eq_true (UInt16.lt_iff_toNat_lt.mpr ?_)
    rw [counter]
    change 0 < _
    omega
  have insideBehind : (bs.skip (tlvsBytes tlvs).length).offset ≤
      (bs.skip (tlvsBytes tlvs).length).data.length := by
    change bs.offset + (tlvsBytes tlvs).length ≤ bs.data.length
    omega
  obtain ⟨two, four, next⟩ := loop_takes insideBehind on later
  rw [behind, ByteStream.skip_offset] at two four next
  refine ⟨fun more => ?_, fun more => ?_, fun tlv rest starts => ?_⟩
  · have reached := two more
    omega
  · have reached := four more
    omega
  · have reached := next tlv rest starts
    omega

/-- The three readers return within their bounds exactly where whole records
leave neither one byte nor three and the given length does not end within what
is read. -/
theorem aimTlvlist_totalAndBounded_iff {bs : ByteStream} (inside : bs.offset ≤ bs.data.length)
    (num len : UInt16) :
    TotalAndBounded bs num len ↔ Framed bs.rest ∧ Contained len.toNat bs.rest := by
  constructor
  · rintro ⟨⟨_, _, read, -⟩, -, ⟨_, _, readlen, -, -, bounded⟩⟩
    exact ⟨framed_of_read read,
      contained_of_readlen readlen inside (Nat.le_trans bounded (Nat.min_le_right _ _))⟩
  · rintro ⟨framed, contained⟩
    have returns : ∀ (goes : UInt16 → Bool) (next : UInt16 → AimTlv → UInt16) (counter : UInt16),
        ReturnsWithin bs bs.data.length
          fun rounds => tlvlistLoop goes next rounds counter [] bs := by
      intro goes next counter
      obtain ⟨rounds, result, ran⟩ := @loop_returns goes next counter [] bs framed
      exact ⟨rounds, result, ran, loop_moves ran inside⟩
    obtain ⟨rounds, result, ran, bounded⟩ := @readlen_bounded len [] bs framed contained
    obtain ⟨data, forward, within⟩ := loop_moves ran inside
    exact ⟨returns _ _ 0, returns _ _ num,
      ⟨rounds, result, ran, data, forward, Nat.le_min.mpr ⟨within, bounded⟩⟩⟩

/-- One record of four bytes, read with its own length. -/
theorem aimTlvlist_totalAndBounded_record :
    TotalAndBounded { data := [0, 1, 0, 0], offset := 0 } 1 4 := by
  have record : ({ data := [0, 1, 0, 0], offset := 0 } : ByteStream).rest =
      tlvBytes (createtlv 1 0 []) ++ [] := by decide
  refine (aimTlvlist_totalAndBounded_iff (by decide) 1 4).mpr ?_
  rw [record]
  constructor
  · intro tlvs more split
    rcases front_cases split with ⟨-, whole⟩ | ⟨later, -, nothing⟩
    · rw [whole]
      decide
    · rw [(append_eq_nil_iff.mp nothing.symm).2]
      decide
  · intro tlvs more split within
    rcases front_cases split with ⟨rfl, rfl⟩ | ⟨later, rfl, nothing⟩
    · refine ⟨by decide, by decide, fun tlv behind same => ?_⟩
      rw [(tlvBytes_injective same).1.symm]
      decide
    · rw [tlvsBytes_cons, length_append, tlvBytes_length] at within
      change 4 + _ + _ < 4 at within
      omega

/-- A lone byte is read for ever. -/
theorem loneByte_not_total : ¬TotalAndBounded { data := [0], offset := 0 } 1 1 := by
  intro total
  obtain ⟨rounds, result, ran, -⟩ := total.read
  change tlvlistLoop _ _ rounds 0 [] _ = _ at ran
  rw [loop_lone (fun _ => rfl) rfl] at ran
  cases ran

end Purple.Oscar
