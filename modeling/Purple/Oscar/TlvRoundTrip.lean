/-
Chains of TLVs are written and read again.
-/

import Purple.Oscar.TlvReading

namespace Purple.Oscar

open List

variable {list : List AimTlv}

theorem aimTlvlistSize_eq (list : List AimTlv) :
    aimTlvlistSize list =
      if (tlvsBytes list).length < 2 ^ 31 then some (tlvsBytes list).length else none := by
  have summed : ∀ (list : List AimTlv) (size : Nat), size < 2 ^ 31 →
      list.foldlM (fun size tlv => addSize size (4 + tlv.length.toNat)) size =
        if size + (tlvsBytes list).length < 2 ^ 31 then some (size + (tlvsBytes list).length)
        else none := by
    intro list
    induction list with
    | nil =>
      intro size bound
      exact (if_pos bound).symm
    | cons tlv list ih =>
      intro size bound
      rw [foldlM_cons, addSize, tlvsBytes_cons, length_append, tlvBytes_length,
        tlv.length_toNat]
      by_cases fits : size + (4 + tlv.value.length) < 2 ^ 31
      · rw [if_pos fits]
        change list.foldlM _ (size + (4 + tlv.value.length)) = _
        rw [ih _ fits, Nat.add_assoc size]
      · rw [if_neg fits, if_neg (by omega)]
        rfl
  rw [aimTlvlistSize, summed list 0 (by decide), Nat.zero_add]

theorem tlvWrite_filled {bs : ByteStream} {bytes : Bytes} {size : Nat}
    (filled : bs.Filled bytes size) {tlv : AimTlv}
    (room : bytes.length + (tlvBytes tlv).length ≤ size) :
    (tlvWrite bs tlv).Filled (bytes ++ tlvBytes tlv) size := by
  rw [tlvBytes_length] at room
  have typed := ByteStream.filled_putraw filled (by
    rw [aimutilPut16_length]
    omega : bytes.length + (aimutilPut16 tlv.type).length ≤ size)
  have headed := ByteStream.filled_putraw typed (by
    rw [length_append, aimutilPut16_length, aimutilPut16_length]
    omega : _ + (aimutilPut16 tlv.length).length ≤ size)
  unfold tlvWrite
  by_cases positive : 0 < tlv.length.toNat
  · have whole := ByteStream.filled_putraw headed (by
      rw [length_append, length_append, aimutilPut16_length, aimutilPut16_length]
      omega : _ + tlv.value.length ≤ size)
    rw [append_assoc, append_assoc, ← append_assoc (aimutilPut16 tlv.type)] at whole
    rw [if_pos positive]
    exact whole
  · have nothing : tlv.value = [] := by
      rw [tlv.length_toNat] at positive
      exact length_eq_zero_iff.mp (Nat.eq_zero_of_not_pos positive)
    rw [if_neg positive, tlvBytes, nothing, append_nil, ← append_assoc]
    exact headed

theorem tlvsWrite_filled {bs : ByteStream} {bytes : Bytes} {size : Nat}
    (filled : bs.Filled bytes size) (room : bytes.length + (tlvsBytes list).length ≤ size) :
    (list.foldl tlvWrite bs).Filled (bytes ++ tlvsBytes list) size := by
  induction list generalizing bs bytes with
  | nil =>
    rw [tlvsBytes_nil, append_nil]
    exact filled
  | cons tlv list ih =>
    rw [tlvsBytes_cons, length_append] at room
    have first := @tlvWrite_filled _ _ _ filled tlv (by omega)
    have later := ih first (by
      rw [length_append]
      omega)
    rw [append_assoc] at later
    exact later

theorem aimTlvlistWrite_new (bound : (tlvsBytes list).length < 2 ^ 31) (fresh : Fresh) :
    aimTlvlistWrite (byteStreamNew fresh (tlvsBytes list).length) list =
      some (1, { data := tlvsBytes list, offset := (tlvsBytes list).length }) := by
  have room : (tlvsBytes list).length ≤
      (byteStreamNew fresh (tlvsBytes list).length).bytesLeft :=
    Nat.le_of_eq (fresh.sized _).symm
  have filled := tlvsWrite_filled (filled_new fresh (tlvsBytes list).length)
    (Nat.le_of_eq (Nat.zero_add _))
  rw [aimTlvlistWrite, aimTlvlistSize_eq, if_pos bound, Option.map_some,
    if_neg (Nat.not_lt_of_le room), ByteStream.filled_whole filled rfl]
  rfl

theorem bound_of_sized {size : Nat} (sized : aimTlvlistSize list = some size) :
    (tlvsBytes list).length < 2 ^ 31 := by
  by_contra large
  rw [aimTlvlistSize_eq, if_neg large] at sized
  cases sized

section Loop

variable {goes : UInt16 → Bool} {next : UInt16 → AimTlv → UInt16} {counter : UInt16}

theorem loop_agrees {list : List AimTlv} {bs : ByteStream} {rounds rounds' : Nat}
    {result result' : List AimTlv × ByteStream}
    (ran : tlvlistLoop goes next rounds counter list bs = some result)
    (ran' : tlvlistLoop goes next rounds' counter list bs = some result') : result = result' := by
  have first := loop_more ran rounds'
  rw [Nat.add_comm, loop_more ran' rounds] at first
  exact (Option.some.inj first).symm

theorem loop_written {tlvs : List AimTlv} (passes : GoesOver goes next counter tlvs) :
    tlvlistLoop goes next (tlvs.length + 1) counter [] { data := tlvsBytes tlvs, offset := 0 } =
      some (tlvs, { data := tlvsBytes tlvs, offset := (tlvsBytes tlvs).length }) := by
  have split : ({ data := tlvsBytes tlvs, offset := 0 } : ByteStream).rest =
      tlvsBytes tlvs ++ [] := (append_nil _).symm
  have ends : (({ data := tlvsBytes tlvs, offset := 0 } : ByteStream).skip
      (tlvsBytes tlvs).length).rest = [] := by
    rw [ByteStream.rest_skip, split, drop_left' rfl]
  rw [loop_over passes split 1, loop_ends ends, append_nil, reverse_reverse,
    ByteStream.skip, Nat.zero_add]

end Loop

theorem readnum_counter {num : UInt16} {tlvs : List AimTlv} (within : tlvs.length ≤ num.toNat) :
    (counterAfter (fun num _ => num - 1) num tlvs).toNat = num.toNat - tlvs.length := by
  induction tlvs generalizing num with
  | nil => rfl
  | cons tlv tlvs ih =>
    rw [length_cons] at within ⊢
    have bound := num.toNat_lt
    have left : (num - 1).toNat = num.toNat - 1 :=
      UInt16.toNat_sub_of_le _ _ (UInt16.le_iff_toNat_le.mpr (Nat.le_trans (by decide)
        (Nat.le_trans (Nat.le_add_left 1 tlvs.length) within)))
    change (counterAfter _ (num - 1) tlvs).toNat = _
    rw [ih (by omega), left]
    omega

theorem readnum_over {num : UInt16} {tlvs : List AimTlv} (within : tlvs.length ≤ num.toNat) :
    GoesOver (fun num => num ≠ 0) (fun num _ => num - 1) num tlvs := by
  intro front tlv rest split
  rw [split, length_append, length_cons] at within
  have counter := @readnum_counter num front (by omega)
  refine decide_eq_true fun zero => ?_
  rw [zero] at counter
  change 0 = _ at counter
  omega

/-- What is written is read again by the three readers, which stop right behind it. -/
def ReadsBack (tlvs : List AimTlv) : Prop :=
  ∃ size, aimTlvlistSize tlvs = some size ∧ ∀ fresh, ∃ written,
    aimTlvlistWrite (byteStreamNew fresh size) tlvs = some (1, written) ∧
      (∃ rounds, aimTlvlistRead rounds written.rewind = some (tlvs, written)) ∧
      (∃ rounds, aimTlvlistReadnum rounds written.rewind (UInt16.ofNat (aimTlvlistCount tlvs)) =
        some (tlvs, written)) ∧
      (size < 65536 → ∃ rounds, aimTlvlistReadlen rounds written.rewind (UInt16.ofNat size) =
        some (tlvs, written))

theorem readsBack_iff (tlvs : List AimTlv) :
    ReadsBack tlvs ↔ (tlvsBytes tlvs).length < 2 ^ 31 ∧ tlvs.length < 65536 := by
  constructor
  · rintro ⟨size, sized, back⟩
    have bound := bound_of_sized sized
    rw [aimTlvlistSize_eq, if_pos bound] at sized
    cases sized
    refine ⟨bound, ?_⟩
    obtain ⟨written, wrote, -, ⟨rounds, ran⟩, -⟩ := back zeroed
    rw [aimTlvlistWrite_new bound] at wrote
    cases wrote
    by_contra many
    -- the count wraps, and as many records as it says are read
    have few : (UInt16.ofNat (aimTlvlistCount tlvs)).toNat = tlvs.length % 65536 :=
      UInt16.toNat_ofNat'
    have wraps := Nat.mod_lt tlvs.length (show 0 < 65536 by decide)
    have taken : (tlvs.take (tlvs.length % 65536)).length = tlvs.length % 65536 := by
      rw [length_take]
      omega
    have passes := @readnum_over (UInt16.ofNat (aimTlvlistCount tlvs))
      (tlvs.take (tlvs.length % 65536)) (Nat.le_of_eq (taken.trans few.symm))
    have counter := @readnum_counter (UInt16.ofNat (aimTlvlistCount tlvs))
      (tlvs.take (tlvs.length % 65536)) (Nat.le_of_eq (taken.trans few.symm))
    rw [taken, few, Nat.sub_self] at counter
    have split : ({ data := tlvsBytes tlvs, offset := 0 } : ByteStream).rest =
        tlvsBytes (tlvs.take (tlvs.length % 65536)) ++
          tlvsBytes (tlvs.drop (tlvs.length % 65536)) := by
      rw [← tlvsBytes_append, take_append_drop]
      rfl
    have zero := UInt16.toNat_inj.mp (counter.trans UInt16.toNat_zero.symm)
    have short := @loop_over _ _ _ [] _ _ passes _ split 1
    have stop : ∀ bs : ByteStream, ¬(0 < bs.bytesLeft ∧
        decide (counterAfter (fun num _ => num - 1) (UInt16.ofNat (aimTlvlistCount tlvs))
          (tlvs.take (tlvs.length % 65536)) ≠ 0) = true) := by
      intro bs both
      exact of_decide_eq_true both.2 zero
    have stopped := short.trans (loop_stops (stop _) 0)
    have same := congrArg Prod.fst (loop_agrees stopped ran)
    have lengths := congrArg List.length same
    change ((tlvs.take (tlvs.length % 65536)).reverse ++ []).reverse.length = tlvs.length at lengths
    rw [append_nil, length_reverse, length_reverse, taken] at lengths
    omega
  · rintro ⟨bound, few⟩
    refine ⟨_, by rw [aimTlvlistSize_eq, if_pos bound], fun fresh => ?_⟩
    refine ⟨_, aimTlvlistWrite_new bound fresh, ⟨_, loop_written fun _ _ _ _ => rfl⟩, ?_, ?_⟩
    · refine ⟨_, loop_written (readnum_over (Nat.le_of_eq ?_))⟩
      rw [aimTlvlistCount, UInt16.toNat_ofNat', Nat.mod_eq_of_lt few]
    · intro small
      refine ⟨_, loop_written (readlen_over (Nat.le_of_eq ?_))⟩
      rw [UInt16.toNat_ofNat', Nat.mod_eq_of_lt small]

theorem read_result {rounds : Nat} {counter : UInt16} {result : List AimTlv}
    {bs left : ByteStream} (ran : tlvlistLoop (fun _ => true) (fun counter _ => counter) rounds
      counter list bs = some (result, left)) :
    result = [] ∨ (∃ tlvs, bs.rest = tlvsBytes tlvs ∧ result = list.reverse ++ tlvs) ∨
      ∃ tlvs more, bs.rest = tlvsBytes tlvs ++ more ∧ more.length = 2 ∧
        result = list.reverse ++ tlvs ++ [createtlv (aimutilGet16 more) 0 []] := by
  induction rounds generalizing counter list bs with
  | zero => cases ran
  | succ rounds ih =>
    have nonempty : 0 < bs.rest.length → 0 < bs.bytesLeft := fun some => bs.rest_length ▸ some
    cases next_cases bs.rest with
    | done empty =>
      rw [loop_ends empty] at ran
      cases ran
      exact .inr (.inl ⟨[], empty, (append_nil _).symm⟩)
    | lone one =>
      rw [loop_lone (fun _ => rfl) one] at ran
      cases ran
    | header two short =>
      by_cases pair : bs.rest.length = 2
      · refine .inr (.inr ⟨[], bs.rest, rfl, pair, ?_⟩)
        have same := congrArg Prod.fst (loop_agrees ran (loop_pair pair rfl 0))
        change result = _ at same
        rw [same, append_nil, reverse_cons]
      · have one : (bs.skip 2).rest.length = 1 := by
          rw [ByteStream.rest_skip, List.length_drop]
          omega
        rw [loop_reads (nonempty (by omega)) rfl (aimTlvRead_header list two short),
          loop_lone (fun _ => rfl) one] at ran
        cases ran
    | whole tlv more split =>
      have behind : (bs.skip (tlvBytes tlv).length).rest = more := by
        rw [ByteStream.rest_skip, split, drop_left' rfl]
      have shifted : ∀ tlvs, (tlv :: list).reverse ++ tlvs = list.reverse ++ tlv :: tlvs := by
        intro tlvs
        rw [reverse_cons, append_assoc]
        rfl
      rw [loop_whole split rfl] at ran
      rcases ih ran with failed | ⟨tlvs, rest, records⟩ | ⟨tlvs, last, rest, two, records⟩
      · exact .inl failed
      · refine .inr (.inl ⟨tlv :: tlvs, ?_, ?_⟩)
        · rw [split, tlvsBytes_cons, ← rest, behind]
        · rw [records, shifted]
      · refine .inr (.inr ⟨tlv :: tlvs, last, ?_, two, ?_⟩)
        · rw [split, tlvsBytes_cons, append_assoc, ← rest, behind]
        · rw [records, shifted]
    | truncated four short =>
      rw [loop_fails (nonempty (by omega)) rfl (aimTlvRead_truncated list four short)] at ran
      cases ran
      exact .inl rfl

theorem written_of_sized {size : Nat} {bytes : Bytes} (sized : aimTlvlistSize list = some size)
    (wrote : ∀ fresh, ∃ written, aimTlvlistWrite (byteStreamNew fresh size) list =
      some (1, written) ∧ written.data = bytes) :
    (tlvsBytes list).length < 2 ^ 31 ∧ tlvsBytes list = bytes := by
  have bound := bound_of_sized sized
  rw [aimTlvlistSize_eq, if_pos bound] at sized
  cases sized
  obtain ⟨written, same, data⟩ := wrote zeroed
  rw [aimTlvlistWrite_new bound] at same
  cases same
  exact ⟨bound, data⟩

def WritesBack (bytes : Bytes) : Prop :=
  ∀ rounds list left, aimTlvlistRead rounds { data := bytes, offset := 0 } = some (list, left) →
    list ≠ [] → ∃ size, aimTlvlistSize list = some size ∧ ∀ fresh, ∃ written,
      aimTlvlistWrite (byteStreamNew fresh size) list = some (1, written) ∧ written.data = bytes

theorem writesBack_iff (bytes : Bytes) :
    WritesBack bytes ↔ (∀ tlvs more, bytes = tlvsBytes tlvs ++ more → more.length ≠ 2) ∧
      ∀ tlvs, bytes = tlvsBytes tlvs → bytes.length < 2 ^ 31 := by
  constructor
  · intro back
    constructor
    · intro tlvs more split two
      have passes : GoesOver (fun _ => true) (fun counter _ => counter) 0 tlvs := fun _ _ _ _ => rfl
      have behind : (({ data := bytes, offset := 0 } : ByteStream).skip
          (tlvsBytes tlvs).length).rest = more := by
        rw [ByteStream.rest_skip]
        change bytes.drop _ = more
        rw [split, drop_left' rfl]
      have ran := (@loop_over _ _ _ [] { data := bytes, offset := 0 } _ passes _ split 2).trans
        (loop_pair (behind ▸ two) rfl 0)
      obtain ⟨size, sized, wrote⟩ := back _ _ _ ran (by
        rw [reverse_cons]
        exact concat_ne_nil _ _)
      obtain ⟨bound, wrote⟩ := written_of_sized sized wrote
      have lengths := congrArg List.length wrote
      rw [append_nil, reverse_cons, reverse_reverse, tlvsBytes_append,
        tlvsBytes_cons, split, length_append, length_append, length_append,
        tlvBytes_length, two] at lengths
      omega
    · intro tlvs whole
      cases tlvs with
      | nil =>
        rw [whole]
        decide
      | cons tlv tlvs =>
        have ran := @loop_written (fun _ => true) (fun counter _ => counter) 0 (tlv :: tlvs)
          fun _ _ _ _ => rfl
        rw [← whole] at ran
        obtain ⟨size, sized, wrote⟩ := back _ _ _ ran (cons_ne_nil _ _)
        rw [whole]
        exact (written_of_sized sized wrote).1
  · rintro ⟨noPair, bound⟩ rounds list left ran nonempty
    rcases read_result ran with failed | ⟨tlvs, rest, records⟩ | ⟨tlvs, more, rest, two, -⟩
    · exact absurd failed nonempty
    · have whole : bytes = tlvsBytes tlvs := rest
      have small := bound tlvs whole
      cases records
      rw [whole] at small
      refine ⟨_, by rw [reverse_nil, nil_append, aimTlvlistSize_eq, if_pos small], ?_⟩
      intro fresh
      exact ⟨_, aimTlvlistWrite_new small fresh, whole.symm⟩
    · exact absurd two (noPair tlvs more rest)

def Compares (one two : List AimTlv) : Prop :=
  ∀ fresh other, ∃ result, aimTlvlistCmp fresh other one two = some result ∧ (result = 0 ↔ one = two)

theorem compares_iff (one two : List AimTlv) :
    Compares one two ↔ (tlvsBytes one).length < 2 ^ 31 ∧ (tlvsBytes two).length < 2 ^ 31 := by
  constructor
  · intro compares
    obtain ⟨result, compared, -⟩ := compares zeroed zeroed
    rw [aimTlvlistCmp, aimTlvlistSize_eq, aimTlvlistSize_eq] at compared
    constructor
    · by_contra large
      rw [if_neg large] at compared
      cases compared
    · by_contra large
      rw [if_neg large] at compared
      split at compared <;> cases compared
  · rintro ⟨left, right⟩ fresh other
    rw [aimTlvlistCmp, aimTlvlistSize_eq, aimTlvlistSize_eq, if_pos left, if_pos right]
    simp only [Option.bind_eq_bind, Option.bind_some]
    by_cases sizes : (tlvsBytes one).length = (tlvsBytes two).length
    · rw [if_neg (not_not.mpr sizes), aimTlvlistWrite_new left, aimTlvlistWrite_new right]
      simp only [Option.bind_some]
      by_cases same : tlvsBytes one = tlvsBytes two
      · rw [if_neg (not_not.mpr same)]
        exact ⟨0, rfl, iff_of_true rfl (tlvsBytes_injective same)⟩
      · rw [if_pos same]
        exact ⟨1, rfl, iff_of_false Nat.one_ne_zero fun equal => same (congrArg tlvsBytes equal)⟩
    · rw [if_pos sizes]
      exact ⟨1, rfl, iff_of_false Nat.one_ne_zero fun equal =>
        sizes (congrArg (fun list => (tlvsBytes list).length) equal)⟩

structure RoundTrips (tlvs : List AimTlv) (bytes : Bytes) (one two : List AimTlv) : Prop where
  readsBack : ReadsBack tlvs
  writesBack : WritesBack bytes
  compares : Compares one two

/-- The sizes are ints, the count is a `guint16`, and no two bytes are left
behind whole records. -/
structure Regular (tlvs : List AimTlv) (bytes : Bytes) (one two : List AimTlv) : Prop where
  size : (tlvsBytes tlvs).length < 2 ^ 31
  count : tlvs.length < 65536
  noPair : ∀ tlvs more, bytes = tlvsBytes tlvs ++ more → more.length ≠ 2
  accepted : ∀ tlvs, bytes = tlvsBytes tlvs → bytes.length < 2 ^ 31
  left : (tlvsBytes one).length < 2 ^ 31
  right : (tlvsBytes two).length < 2 ^ 31

theorem tlvlist_roundTrips_iff (tlvs : List AimTlv) (bytes : Bytes) (one two : List AimTlv) :
    RoundTrips tlvs bytes one two ↔ Regular tlvs bytes one two := by
  constructor
  · rintro ⟨reads, writes, compares⟩
    obtain ⟨size, count⟩ := (readsBack_iff tlvs).mp reads
    obtain ⟨noPair, accepted⟩ := (writesBack_iff bytes).mp writes
    obtain ⟨left, right⟩ := (compares_iff one two).mp compares
    exact { size, count, noPair, accepted, left, right }
  · intro regular
    exact ⟨(readsBack_iff tlvs).mpr ⟨regular.size, regular.count⟩,
      (writesBack_iff bytes).mpr ⟨regular.noPair, regular.accepted⟩,
      (compares_iff one two).mpr ⟨regular.left, regular.right⟩⟩

/-- Two bytes are read as a record and written as four. -/
theorem pair_not_roundTrip : ¬RoundTrips [] [0, 5] [] [] := by
  intro trips
  have ran : aimTlvlistRead 2 { data := [0, 5], offset := 0 } =
      some ([createtlv 5 0 []], { data := [0, 5], offset := 2 }) := by decide
  obtain ⟨size, sized, wrote⟩ := trips.writesBack _ _ _ ran (cons_ne_nil _ _)
  have same := (written_of_sized sized wrote).2
  exact absurd same (by decide)

end Purple.Oscar
