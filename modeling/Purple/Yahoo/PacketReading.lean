/-
The reader of YMSG packets: it stays inside its bytes whatever they are, and reads
an encoding of plain pairs back.
-/

import Purple.Yahoo.Packet

namespace Purple.Yahoo

open List Option CString Decimal Endian Memory

variable {data : Bytes} {len : Int} {pos : Nat}

theorem byteAt_some (held : len ≤ data.length) (inside : (pos : Int) < len) :
    ∃ byte, byteAt data len pos = some byte := by
  have bound : pos < data.length := by omega
  exact ⟨data[pos], by rw [byteAt, if_pos inside, getElem?_eq_getElem bound]⟩

theorem separatorAt_some (held : len ≤ data.length) (inside : (pos : Int) + 1 < len) :
    ∃ found, separatorAt data len pos = some found := by
  obtain ⟨first, there⟩ := byteAt_some held (show (pos : Int) < len by omega)
  obtain ⟨second, next⟩ := byteAt_some held (show ((pos + 1 : Nat) : Int) < len by omega)
  rw [separatorAt, there, bind_some, next]
  split
  · exact ⟨_, rfl⟩
  · exact ⟨_, rfl⟩

theorem readKey_some (held : len ≤ data.length) (pos : Nat) (key : Bytes) (x : Nat) :
    ∃ read, readKey data len pos key x = some read := by
  induction pos, key, x using readKey.induct len with
  | case1 pos key x inside ihLong ihShort =>
    obtain ⟨found, looked⟩ := separatorAt_some held inside
    obtain ⟨byte, there⟩ := byteAt_some held (show (pos : Int) < len by omega)
    rw [readKey, if_pos inside, looked, bind_some, there, bind_some]
    split
    · exact ⟨_, rfl⟩
    · split
      · exact ihLong
      · exact ihShort byte
  | case2 pos key x outside =>
    rw [readKey, if_neg outside]
    exact ⟨_, rfl⟩

theorem strstrLen_some (held : len ≤ data.length) (pos : Nat) :
    ∃ found, strstrLen data len pos = some found ∧
      ∀ delimiter, found = some delimiter → (delimiter : Int) + 2 ≤ len := by
  induction pos using strstrLen.induct len with
  | case1 pos inside ih =>
    obtain ⟨byte, there⟩ := byteAt_some held (show (pos : Int) < len by omega)
    obtain ⟨here, looked⟩ := separatorAt_some held (show (pos : Int) + 1 < len by omega)
    rw [strstrLen, if_pos inside, there, bind_some, looked, bind_some]
    split
    · exact ⟨none, rfl, fun _ none => absurd none.symm (some_ne_none _)⟩
    · split
      · refine ⟨some pos, rfl, ?_⟩
        rintro delimiter same
        cases same
        exact inside
      · exact ih
  | case2 pos outside =>
    rw [strstrLen, if_neg outside]
    exact ⟨none, rfl, fun _ none => absurd none.symm (some_ne_none _)⟩

theorem readPair_some (held : len ≤ data.length) (pos : Nat) :
    ∃ read, readPair data len pos = some read := by
  obtain ⟨⟨key, x, last⟩, keyRead⟩ := readKey_some held pos [] 0
  rw [readPair, keyRead, bind_some]
  dsimp only
  split
  · exact ⟨_, rfl⟩
  · obtain ⟨found, searched, bounded⟩ := strstrLen_some held (last + 2)
    rw [searched, bind_some]
    cases found with
    | none => exact ⟨_, rfl⟩
    | some delimiter =>
      have forward := strstrLen_forward searched
      have bound := bounded delimiter rfl
      dsimp only
      rw [strndup, if_pos (by omega)]
      exact ⟨_, rfl⟩

theorem readPairs_eq (data : Bytes) (len : Int) (pos : Nat) (hash : List YahooPair) :
    readPairs data len pos hash =
      if (pos : Int) + 1 < len then
        (byteAt data len pos).bind fun byte =>
          if byte = 0 then some hash
          else
            (readPair data len pos).bind fun (next, pair) =>
              if (next : Int) + 1 > len then some (pair.toList ++ hash)
              else
                (byteAt data len 0).bind fun first =>
                  (if first = 57 then (byteAt data len next).map (· == 1) else some false).bind
                    fun garbage =>
                      readPairs data len (if garbage then next + 1 else next) (pair.toList ++ hash)
      else some hash := by
  rw [readPairs]
  by_cases inside : (pos : Int) + 1 < len
  · rw [dif_pos inside, if_pos inside]
    congr 1
    funext byte
    split
    · rfl
    · split
      · rename_i failed
        rw [failed]
        rfl
      · rename_i next pair read
        rw [read]
        rfl
  · rw [dif_neg inside, if_neg inside]

theorem readPairs_some (held : len ≤ data.length) (pos : Nat) (hash : List YahooPair) :
    ∃ read, readPairs data len pos hash = some read := by
  induction measure : (len - pos).toNat using Nat.strongRecOn generalizing pos hash with
  | ind remaining ih =>
    rw [readPairs_eq]
    by_cases inside : (pos : Int) + 1 < len
    · obtain ⟨byte, there⟩ := byteAt_some held (show (pos : Int) < len by omega)
      obtain ⟨⟨next, pair⟩, read⟩ := readPair_some held pos
      have forward := readPair_forward inside read
      rw [if_pos inside, there, bind_some, read, bind_some]
      dsimp only
      split
      · exact ⟨hash, rfl⟩
      · split
        · exact ⟨_, rfl⟩
        · rename_i more
          obtain ⟨first, head⟩ := byteAt_some held (show ((0 : Nat) : Int) < len by omega)
          obtain ⟨after, beyond⟩ := byteAt_some held (show (next : Int) < len by omega)
          rw [head, bind_some, beyond, map_some]
          have continued (garbage : Bool) : ∃ read,
              readPairs data len (if garbage then next + 1 else next) (pair.toList ++ hash) =
                some read := by
            refine ih _ ?_ _ _ rfl
            split <;> omega
          split
          · exact continued _
          · exact continued _
    · rw [if_neg inside]
      exact ⟨hash, rfl⟩

theorem byteAt_front (before after : Bytes) (byte : UInt8) (inside : (before.length : Int) < len) :
    byteAt (before ++ byte :: after) len before.length = some byte := by
  rw [byteAt, if_pos inside, getElem?_append_right (Nat.le_refl _), Nat.sub_self]
  rfl

theorem separatorAt_front (before after : Bytes) (first second : UInt8)
    (inside : (before.length : Int) + 1 < len) :
    separatorAt (before ++ first :: second :: after) len before.length =
      some (first == 0xc0 && second == 0x80) := by
  have next := @byteAt_front len (before ++ [first]) after second (by
    rw [length_append, length_singleton]
    omega)
  rw [length_append, length_singleton, append_assoc] at next
  rw [separatorAt, byteAt_front before (second :: after) first (by omega), bind_some]
  by_cases start : first = 0xc0
  · rw [if_pos start, show before ++ first :: second :: after =
      before ++ ([first] ++ second :: after) from rfl, next, start]
    rfl
  · rw [if_neg start, beq_eq_false_iff_ne.mpr start]
    rfl

theorem readKey_front {before key after stored : Bytes} (plain : ∀ byte ∈ key, byte ≠ 0xc0)
    (short : stored.length + key.length < 63)
    (room : ((before ++ key ++ separator).length : Int) ≤ len) :
    readKey (before ++ key ++ separator ++ after) len before.length stored stored.length =
      some (stored ++ key, stored.length + key.length, before.length + key.length) := by
  induction key generalizing before stored with
  | nil =>
    have inside : (before.length : Int) + 1 < len := by
      rw [append_nil, length_append] at room
      change ((before.length + 2 : Nat) : Int) ≤ len at room
      omega
    have found := separatorAt_front before after 0xc0 0x80 inside
    rw [append_nil, append_assoc, readKey, if_pos inside]
    change ((separatorAt (before ++ 0xc0 :: 0x80 :: after) len before.length).bind _) = _
    rw [found, append_nil]
    rfl
  | cons byte rest ih =>
    rw [length_append, length_append, length_cons] at room
    change ((before.length + (rest.length + 1) + 2 : Nat) : Int) ≤ len at room
    have inside : (before.length : Int) + 1 < len := by omega
    obtain ⟨second, more, split⟩ : ∃ second more, rest ++ separator ++ after = second :: more :=
      exists_cons_of_ne_nil (append_ne_nil_of_left_ne_nil
        (append_ne_nil_of_right_ne_nil rest (cons_ne_nil _ _)) after)
    have whole : before ++ byte :: rest ++ separator ++ after = before ++ byte :: second :: more := by
      rw [← split, append_assoc, append_assoc, append_assoc]
      rfl
    have other : (byte == 0xc0) = false := beq_eq_false_iff_ne.mpr (plain byte mem_cons_self)
    rw [length_cons] at short
    have further := @ih (before ++ [byte]) (stored ++ [byte])
      (fun other member => plain other (mem_cons_of_mem _ member))
      (by rw [length_append, length_singleton]; omega)
      (by
        rw [length_append, length_append, length_append, length_singleton]
        change ((before.length + 1 + rest.length + 2 : Nat) : Int) ≤ len
        omega)
    rw [length_append, length_append, length_singleton, append_assoc before,
      append_assoc stored] at further
    rw [readKey, if_pos inside, whole, separatorAt_front before more byte second inside, other,
      bind_some, Bool.false_and, if_neg Bool.false_ne_true, if_neg (by omega),
      byteAt_front before (second :: more) byte (by omega), bind_some, ← whole]
    change readKey (before ++ ([byte] ++ rest) ++ separator ++ after) len (before.length + 1)
      (stored ++ [byte]) (stored.length + 1) = _
    rw [further, length_cons]
    congr 2
    · congr 1 <;> omega

theorem strstrLen_front {before value after : Bytes} (noNul : 0 ∉ value)
    (noSeparator : ¬ separator <:+: value)
    (room : ((before ++ value ++ separator).length : Int) ≤ len) :
    strstrLen (before ++ value ++ separator ++ after) len before.length =
      some (some (before.length + value.length)) := by
  induction value generalizing before with
  | nil =>
    have inside : (before.length : Int) + 2 ≤ len := by
      rw [append_nil, length_append] at room
      exact room
    have found := @separatorAt_front len before after 0xc0 0x80 (by omega)
    rw [append_nil, append_assoc, strstrLen, if_pos inside]
    change ((byteAt (before ++ 0xc0 :: 0x80 :: after) len before.length).bind _) = _
    rw [byteAt_front before (0x80 :: after) 0xc0 (by omega), bind_some, if_neg (by decide)]
    change ((separatorAt (before ++ 0xc0 :: 0x80 :: after) len before.length).bind _) = _
    rw [found]
    rfl
  | cons byte rest ih =>
    rw [length_append, length_append, length_cons] at room
    change ((before.length + (rest.length + 1) + 2 : Nat) : Int) ≤ len at room
    have inside : (before.length : Int) + 2 ≤ len := by omega
    obtain ⟨second, more, split⟩ : ∃ second more, rest ++ separator ++ after = second :: more :=
      exists_cons_of_ne_nil (append_ne_nil_of_left_ne_nil
        (append_ne_nil_of_right_ne_nil rest (cons_ne_nil _ _)) after)
    have whole : before ++ byte :: rest ++ separator ++ after = before ++ byte :: second :: more := by
      rw [← split, append_assoc, append_assoc, append_assoc]
      rfl
    have solid : byte ≠ 0 := fun nul => noNul (nul ▸ mem_cons_self)
    -- a separator that starts in the value ends in it
    have other : (byte == 0xc0 && second == 0x80) = false := by
      rw [Bool.and_eq_false_iff, beq_eq_false_iff_ne, beq_eq_false_iff_ne]
      by_contra both
      rw [not_or, not_not, not_not] at both
      obtain ⟨rfl, rfl⟩ := both
      cases rest with
      | nil =>
        cases split
      | cons next rest =>
        cases split
        exact noSeparator ⟨[], rest, rfl⟩
    have further := @ih (before ++ [byte])
      (fun member => noNul (mem_cons_of_mem _ member))
      (fun within => noSeparator (within.trans (suffix_cons byte rest).isInfix))
      (by
        rw [length_append, length_append, length_append, length_singleton]
        change ((before.length + 1 + rest.length + 2 : Nat) : Int) ≤ len
        omega)
    rw [length_append, length_singleton, append_assoc before] at further
    rw [strstrLen, if_pos inside, whole, byteAt_front before (second :: more) byte (by omega),
      bind_some, if_neg solid, separatorAt_front before more byte second (by omega), other,
      bind_some, if_neg Bool.false_ne_true, ← whole]
    change strstrLen (before ++ ([byte] ++ rest) ++ separator ++ after) len (before.length + 1) = _
    rw [further, length_cons]
    congr 2
    omega

structure Plain (pair : YahooPair) : Prop where
  nonneg : 0 ≤ pair.key.toInt
  noNul : 0 ∉ pair.value
  noSeparator : ¬ separator <:+: pair.value

def encodePair (pair : YahooPair) : Bytes :=
  printInt pair.key.toInt ++ separator ++ cString pair.value ++ separator

def encode (pairs : List YahooPair) : Bytes := pairs.flatMap encodePair

variable {pair : YahooPair} {pairs : List YahooPair}

theorem Plain.key (plain : Plain pair) :
    printInt pair.key.toInt = decimal pair.key.toInt.toNat := by
  have nonneg := plain.nonneg
  rw [printInt_nonneg nonneg, show pair.key.toInt.natAbs = pair.key.toInt.toNat by omega]

theorem Plain.keyShort (plain : Plain pair) : (printInt pair.key.toInt).length ≤ 10 := by
  have upper := pair.key.toInt_lt
  rw [plain.key]
  exact @decimal_length _ 9 (by omega)

theorem Plain.keyDigits (plain : Plain pair) :
    ∀ byte ∈ printInt pair.key.toInt, 48 ≤ byte.toNat ∧ byte.toNat ≤ 57 := by
  rw [plain.key]
  exact decimal_digits _

theorem Plain.keyStart (plain : Plain pair) :
    ∃ first rest, encodePair pair = first :: rest ∧ 48 ≤ first.toNat ∧ 5 ≤ (encodePair pair).length := by
  obtain ⟨first, rest, split⟩ :=
    exists_cons_of_ne_nil (decimal_ne_nil pair.key.toInt.toNat)
  have digits := plain.keyDigits
  have nonempty : 0 < (printInt pair.key.toInt).length := by
    rw [plain.key, split]
    exact Nat.succ_pos _
  refine ⟨first, rest ++ separator ++ cString pair.value ++ separator, ?_, ?_, ?_⟩
  · rw [encodePair, plain.key, split]
    rfl
  · rw [plain.key, split] at digits
    exact (digits first mem_cons_self).1
  · rw [encodePair, length_append, length_append, length_append]
    change 5 ≤ _ + 2 + _ + 2
    omega

theorem Plain.keyRead (plain : Plain pair) :
    Int32.ofInt (strtol (cString (printInt pair.key.toInt))) = pair.key := by
  have noNul : 0 ∉ printInt pair.key.toInt := fun member =>
    absurd (plain.keyDigits 0 member).1 (by decide)
  have upper := pair.key.toInt_lt
  rw [cString_clean noNul, plain.key, strtol_decimal (by omega), Int.toNat_of_nonneg plain.nonneg,
    Int32.ofInt_toInt]

theorem readPair_front (plain : Plain pair) {before after : Bytes}
    (room : ((before ++ encodePair pair).length : Int) ≤ len) :
    readPair (before ++ encodePair pair ++ after) len before.length =
      some (before.length + (encodePair pair).length, some pair) := by
  let key := printInt pair.key.toInt
  have value : cString pair.value = pair.value := cString_clean plain.noNul
  have sized : (encodePair pair).length = key.length + 2 + pair.value.length + 2 := by
    rw [encodePair, value, length_append, length_append, length_append]
    rfl
  rw [length_append, sized] at room
  have noSeparator : ∀ byte ∈ key, byte ≠ 0xc0 := by
    rintro byte member rfl
    exact absurd (plain.keyDigits _ member).2 (by decide)
  have asKey : before ++ encodePair pair ++ after =
      before ++ key ++ separator ++ (pair.value ++ separator ++ after) := by
    rw [encodePair, value]
    simp only [append_assoc, key]
  have asValue : before ++ encodePair pair ++ after =
      (before ++ key ++ separator) ++ pair.value ++ separator ++ after := by
    rw [asKey]
    simp only [append_assoc]
  have keyLength : (before ++ key ++ separator).length = before.length + key.length + 2 := by
    rw [length_append, length_append]
    rfl
  have short : key.length ≤ 10 := plain.keyShort
  have nonempty : key.length ≠ 0 := by
    change (printInt pair.key.toInt).length ≠ 0
    rw [plain.key]
    exact fun empty => decimal_ne_nil _ (eq_nil_of_length_eq_zero empty)
  have keyFound := @readKey_front len before key (pair.value ++ separator ++ after) [] noSeparator
    (by change 0 + key.length < 63; omega) (by rw [keyLength]; omega)
  have valueFound := @strstrLen_front len (before ++ key ++ separator) pair.value after plain.noNul
    plain.noSeparator (by
      rw [length_append, length_append, keyLength]
      change ((before.length + key.length + 2 + pair.value.length + 2 : Nat) : Int) ≤ len
      omega)
  rw [← asKey, length_nil, Nat.zero_add, nil_append] at keyFound
  rw [← asValue, keyLength] at valueFound
  have kept : keptLength key.length = key.length := if_neg (by omega)
  have copied : strndup (before ++ encodePair pair ++ after) len (before.length + key.length + 2)
      pair.value.length = some pair.value := by
    rw [strndup, if_pos, asValue, append_assoc, append_assoc,
      drop_left' keyLength, take_left' rfl, value]
    rw [length_append, length_append, sized]
    omega
  rw [readPair, keyFound, bind_some]
  dsimp only
  rw [kept, if_neg (by omega), valueFound, bind_some]
  dsimp only
  rw [Nat.add_sub_cancel_left, copied, map_some, take_length, plain.keyRead, sized]
  congr 2
  omega

theorem readPairs_front {before extra : Bytes} (hash : List YahooPair)
    (plain : ∀ pair ∈ pairs, Plain pair) (whole : len = (before ++ encode pairs).length) :
    readPairs (before ++ encode pairs ++ extra) len before.length hash =
      some (pairs.reverse ++ hash) := by
  induction pairs generalizing before hash with
  | nil =>
    have ended : ¬ (before.length : Int) + 1 < len := by
      rw [whole]
      change ¬ (before.length : Int) + 1 < ((before ++ []).length : Nat)
      rw [append_nil]
      omega
    rw [readPairs_eq, if_neg ended]
    rfl
  | cons pair rest ih =>
    have here := plain pair mem_cons_self
    have later : ∀ pair ∈ rest, Plain pair := fun other member =>
      plain other (mem_cons_of_mem pair member)
    have split : before ++ encode (pair :: rest) ++ extra =
        before ++ encodePair pair ++ (encode rest ++ extra) := by
      change before ++ (encodePair pair ++ encode rest) ++ extra = _
      simp only [append_assoc]
    have sized : len = before.length + (encodePair pair).length + (encode rest).length := by
      rw [whole]
      change (((before ++ (encodePair pair ++ encode rest)).length : Nat) : Int) = _
      rw [length_append, length_append]
      omega
    obtain ⟨first, others, starts, digit, long⟩ := here.keyStart
    have inside : (before.length : Int) + 1 < len := by omega
    have firstByte : byteAt (before ++ encode (pair :: rest) ++ extra) len before.length =
        some first := by
      rw [split, starts, append_assoc]
      exact byteAt_front before (others ++ (encode rest ++ extra)) first (by omega)
    have solid : first ≠ 0 := by
      rintro rfl
      exact absurd digit (by decide)
    have pairRead := @readPair_front len pair here before (encode rest ++ extra) (by
      rw [length_append]
      omega)
    rw [← split] at pairRead
    rw [readPairs_eq, if_pos inside, firstByte, bind_some, if_neg solid, pairRead,
      bind_some]
    dsimp only
    cases rest with
    | nil =>
      rw [if_pos]
      · rfl
      · change len = _ + 0 at sized
        omega
    | cons next more =>
      obtain ⟨second, following, continues, secondDigit, longer⟩ :=
        (later next mem_cons_self).keyStart
      have bound : (encodePair next).length ≤ (encode (next :: more)).length := by
        change _ ≤ (encodePair next ++ encode more).length
        rw [length_append]
        exact Nat.le_add_right _ _
      obtain ⟨head, headByte⟩ := @byteAt_some (before ++ encode (pair :: next :: more) ++ extra)
        len 0 (by rw [split, length_append, length_append, length_append]; omega)
        (by omega)
      have secondByte : byteAt (before ++ encode (pair :: next :: more) ++ extra) len
          (before.length + (encodePair pair).length) = some second := by
        have there := @byteAt_front len (before ++ encodePair pair)
          (following ++ encode more ++ extra) second (by rw [length_append]; omega)
        rw [length_append] at there
        rw [split]
        change byteAt (before ++ encodePair pair ++ (encodePair next ++ encode more ++ extra)) len _ = _
        rw [continues]
        exact there
      have clean : (second == 1) = false := by
        rw [beq_eq_false_iff_ne]
        rintro rfl
        exact absurd secondDigit (by decide)
      have further := @ih (before ++ encodePair pair) (pair :: hash) later (by
        rw [sized, length_append, length_append]
        omega)
      rw [append_assoc _ (encode (next :: more)) extra, ← split, length_append]
        at further
      rw [if_neg (by omega), headByte, bind_some, secondByte, map_some, clean]
      have noGarbage : (if head = 57 then some false else some false) = some false := by
        split <;> rfl
      rw [noGarbage, bind_some, if_neg Bool.false_ne_true]
      change readPairs _ len _ (pair :: hash) = _
      rw [further]
      simp only [reverse_cons, append_assoc, cons_append, nil_append]

end Purple.Yahoo
