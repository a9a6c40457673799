/-
The CHAP messages in a buffer.

An attribute that is acted on ends the callback with whatever lies behind it, so what
is said of a read holds of one that brings no byte behind such an attribute.
-/

import Purple.Proxy.Socks5Reads
import Mathlib.Data.List.Induction

namespace Purple.Proxy

open List Option Memory

variable {settings : Settings}

def ActsEarly (settings : Settings) (awaiting : Awaiting) (bytes : Bytes) : Prop :=
  ∃ first rest next actions request, bytes = first ++ rest ∧ rest ≠ [] ∧
    feeds settings awaiting first = some (next, actions) ∧ .sends request ∈ actions

variable {awaiting : Awaiting} {reader : Reader} {next : Awaiting × List Action}

theorem actsEarly_behind {middle : Awaiting} {first second : Bytes}
    (silent : feeds settings awaiting first = some (middle, []))
    (early : ActsEarly settings middle second) : ActsEarly settings awaiting (first ++ second) := by
  obtain ⟨front, rest, next, actions, request, rfl, some', fed, sent⟩ := early
  exact ⟨first ++ front, rest, next, actions, request, (append_assoc _ _ _).symm, some',
    by rw [feeds_silent silent, fed], sent⟩

theorem actsEarly_of_behind {middle : Awaiting} {first second : Bytes}
    (silent : feeds settings awaiting first = some (middle, []))
    (early : ActsEarly settings awaiting (first ++ second)) : ActsEarly settings middle second := by
  obtain ⟨front, rest, next, actions, request, same, some', fed, sent⟩ := early
  rcases append_eq_append_iff.mp same with ⟨between, longer, behind⟩ | ⟨between, shorter, behind⟩
  · rw [longer, feeds_silent silent] at fed
    exact ⟨between, rest, next, actions, request, behind, some', fed, sent⟩
  · rw [shorter] at silent
    obtain ⟨other, before, after, fedFront, _, none'⟩ := feeds_front silent
    rw [fed] at fedFront
    cases fedFront
    rw [(append_eq_nil_iff.mp none'.symm).1] at sent
    exact absurd sent not_mem_nil

theorem feeds_incomplete {left : Nat} {got : Bytes} (incomplete : Incomplete got) :
    feeds settings (.chap left []) got = some (.chap left got, []) := by
  match got with
  | [] => rfl
  | [kind] => rfl
  | kind :: length :: value =>
    have positive : length ≠ 0 := by
      rintro rfl
      exact Nat.not_lt_zero _ incomplete
    have begun : feeds settings (.chap left []) [kind, length] =
        some (.chap left [kind, length], []) := by
      simp only [feeds, feed, if_neg positive, bind_some, map_some, append_nil]
    suffices ∀ value : Bytes, value.length < length.toNat →
        feeds settings (.chap left [kind, length]) value =
          some (.chap left (kind :: length :: value), []) by
      rw [← this value incomplete]
      exact feeds_silent begun value
    intro value short
    induction value using List.reverseRecOn with
    | nil => rfl
    | append_singleton value byte ih =>
      have shorter : value.length < length.toNat := by
        rw [length_append, length_singleton] at short
        omega
      rw [feeds_silent (ih shorter), feeds_single, feed, if_pos short]
      rfl

theorem feeds_attribute {left : Nat} {kind length : UInt8} {value : Bytes}
    (whole : value.length = length.toNat) :
    feeds settings (.chap left []) (kind :: length :: value) =
      attributeTaken settings (left - 1) kind value := by
  cases value using List.reverseRecOn with
  | nil =>
    have zero : length = 0 := UInt8.toNat.inj whole.symm
    have begun : feeds settings (.chap left []) [kind] = some (.chap left [kind], []) :=
      rfl
    change feeds settings (.chap left []) ([kind] ++ [length]) = _
    rw [feeds_silent begun, feeds_single, feed, if_pos zero]
  | append_singleton value byte =>
    have short : value.length < length.toNat := by
      rw [← whole, length_append, length_singleton]
      exact Nat.lt_succ_self _
    have begun : feeds settings (.chap left []) (kind :: length :: value) =
        some (.chap left (kind :: length :: value), []) := feeds_incomplete short
    have split : kind :: length :: (value ++ [byte]) = (kind :: length :: value) ++ [byte] := rfl
    have full : ¬(value ++ [byte]).length < length.toNat := by
      rw [whole]
      exact Nat.lt_irrefl _
    rw [split, feeds_silent begun, feeds_single, feed, if_neg full]

theorem attribute_cases (rest : Bytes) :
    Incomplete rest ∨ ∃ kind length value more, rest = kind :: length :: value ++ more ∧
      value.length = length.toNat := by
  match rest with
  | [] => exact Or.inl trivial
  | [_] => exact Or.inl trivial
  | kind :: length :: bytes =>
    by_cases short : bytes.length < length.toNat
    · exact Or.inl short
    · refine Or.inr ⟨kind, length, bytes.take length.toNat, bytes.drop length.toNat, ?_, ?_⟩
      · rw [cons_append, cons_append, take_append_drop]
      · rw [length_take]
        omega

theorem compactChap_held {front rest : Bytes} {version count : UInt8} (left : Nat)
    (held : Held reader (version :: count :: front ++ rest) 259) :
    ∃ next, compactChap reader left (front.length + 2) = some next ∧
      Held next (version :: byteOf left :: rest) 259 := by
  obtain ⟨⟨block, found, length, behind, cells⟩, sized, counted⟩ := held
  have written : block.store 1 [some (byteOf left)] =
      some ((version :: byteOf left :: front ++ rest).map some ++ behind) := by
    rw [← cells]
    exact Block.store_cell [some version] ((front ++ rest).map some ++ behind) (some count)
      (some (byteOf left))
  have size : reader.readLen - (front.length + 2) = rest.length := by
    rw [counted, length_append, length_cons, length_cons]
    omega
  have initial : (version :: byteOf left :: front ++ rest).map some <+:
      (version :: byteOf left :: front ++ rest).map some ++ behind := prefix_append _ behind
  have loaded : Block.load ((version :: byteOf left :: front ++ rest).map some ++ behind)
      (front.length + 2) rest.length = some (rest.map some) := by
    have inFront := Block.load_front ((version :: byteOf left :: front).map some) (rest.map some)
      (map_append ▸ initial)
    rw [length_map, length_map, ← map_append] at inFront
    exact inFront
  obtain ⟨stored, moved, same, longer⟩ := @moved_front _ (version :: byteOf left :: front) rest
    [version, byteOf left] initial (Nat.le_add_left 2 _) ⟨(front ++ rest).map some ++ behind, by simp⟩
  refine ⟨{ reader with readBuffer := some stored, readLen := rest.length + 2 }, ?_,
    ⟨stored, rfl, ?_, longer⟩, sized, rfl⟩
  · simp only [compactChap, found, bind_eq_bind, bind_some, written, size, loaded]
    change (Block.store _ [version, byteOf left].length _).bind _ = _
    rw [moved]
    rfl
  · rw [same, ← length, ← cells]
    simp only [length_append, length_map, length_cons]

def Results (settings : Settings) (content : Bytes) (next : Awaiting × List Action) :
    ChapResult → Prop
  | .processed count =>
    ∃ front rest, content = front ++ rest ∧ front.length = count ∧ 2 ≤ count ∧
      feeds settings (.header []) rest = some next ∧ ¬ActsEarly settings (.header []) rest
  | .stops outcome => Meets .s5Readchap outcome next

theorem stopped_meets {first rest : Bytes} {outcome : Outcome}
    (taken : feeds settings awaiting first = acted outcome)
    (fed : feeds settings awaiting (first ++ rest) = some next)
    (late : ¬ActsEarly settings awaiting (first ++ rest)) : Meets .s5Readchap outcome next := by
  rw [feeds_append, taken] at fed
  cases outcome with
  | waits reader => cases fed
  | ends action =>
    simp only [acted, bind_some, feeds_finished, map_some, append_nil] at fed
    exact fed
  | sends request readCb =>
    have nothing : rest = [] := by
      by_contra some'
      exact late ⟨first, rest, readCb.fresh, [.sends request], request, rfl, some', taken,
        mem_cons_self⟩
    rw [nothing] at fed
    simp only [acted, bind_some, feeds, map_some, append_nil] at fed
    exact fed

theorem attribute_head {front behind : Bytes} {version count kind length : UInt8}
    (held : Held reader (version :: count :: front ++ kind :: length :: behind) 259) :
    reader.byteAt (front.length + 2) = some kind ∧
      reader.byteAt (front.length + 2 + 1) = some length := by
  have after (index : Nat) : (version :: count :: front ++ kind :: length :: behind)[
      (version :: count :: front).length + index]? = (kind :: length :: behind)[index]? := by
    rw [getElem?_append_right (Nat.le_add_right _ _), Nat.add_sub_cancel_left]
  rw [held.byteAt, held.byteAt]
  exact ⟨after 0, after 1⟩

theorem chapAttributes_results {reader : Reader} {front rest : Bytes} {count : UInt8}
    {next : Awaiting × List Action} (left : Nat) (small : left < 256)
    (held : Held reader (1 :: count :: front ++ rest) 259)
    (fed : feeds settings (attributes left) rest = some next)
    (late : ¬ActsEarly settings (attributes left) rest) :
    ∃ result, chapAttributes settings reader left (front.length + 2) = some result ∧
      Results settings (1 :: count :: front ++ rest) next result := by
  induction left generalizing front rest with
  | zero =>
    exact ⟨.processed (front.length + 2), rfl, 1 :: count :: front, rest, rfl, rfl,
      Nat.le_add_left 2 _, fed, late⟩
  | succ left ih =>
    have place : reader.readLen - (front.length + 2) = rest.length := by
      rw [held.counted, length_append, length_cons, length_cons]
      omega
    obtain ⟨compacted, moved, kept⟩ := compactChap_held (left + 1) held
    have more : Incomplete rest → Results settings (1 :: count :: front ++ rest) next
        (.stops (.waits compacted)) := by
      intro incomplete
      have waiting : feeds settings (attributes (left + 1)) rest =
          some (.chap (left + 1) rest, []) := feeds_incomplete incomplete
      rw [waiting] at fed
      cases fed
      exact ⟨⟨rfl, Nat.succ_pos left, small, incomplete, kept.ready⟩, rfl⟩
    rw [chapAttributes, place, moved, map_some]
    rcases attribute_cases rest with incomplete | ⟨kind, length, value, behind, rfl, whole⟩
    · refine ⟨.stops (.waits compacted), ?_, more incomplete⟩
      match rest with
      | [] => rfl
      | [_] => rfl
      | kind :: length :: value =>
        obtain ⟨first, second⟩ := attribute_head held
        have headed : ¬(kind :: length :: value).length < 2 := by
          rw [length_cons, length_cons]
          omega
        have short : (kind :: length :: value).length < length.toNat + 2 :=
          Nat.add_lt_add_right incomplete 2
        simp only [if_neg headed, first, second, bind_eq_bind, bind_some,
          if_pos short]
    · obtain ⟨first, second⟩ := attribute_head held
      have size : (kind :: length :: value ++ behind).length = value.length + behind.length + 2 := by
        rw [cons_append, cons_append, length_cons, length_cons,
          length_append]
      have headed : ¬(kind :: length :: value ++ behind).length < 2 := by omega
      have enough : ¬(kind :: length :: value ++ behind).length < length.toNat + 2 := by omega
      have taken : feeds settings (attributes (left + 1)) (kind :: length :: value) =
          attributeTaken settings left kind value := feeds_attribute whole
      have shape : (1 : UInt8) :: count :: front ++ (kind :: length :: value ++ behind) =
          1 :: count :: (front ++ kind :: length :: value) ++ behind := by
        simp only [cons_append, append_assoc]
      -- an attribute that is not acted on: the next one is read
      have further : feeds settings (attributes (left + 1)) (kind :: length :: value) =
            some (attributes left, []) →
          ∃ result, chapAttributes settings reader left
              (front.length + 2 + (2 + length.toNat)) = some result ∧
            Results settings (1 :: count :: front ++ (kind :: length :: value ++ behind)) next
              result := by
        intro silent
        rw [feeds_silent silent] at fed
        rw [shape] at held ⊢
        have length' : (front ++ kind :: length :: value).length + 2 =
            front.length + 2 + (2 + length.toNat) := by
          rw [length_append, length_cons, length_cons]
          omega
        rw [← length']
        exact ih (by omega) held fed fun early => late (actsEarly_behind silent early)
      simp only [if_neg headed, first, second, bind_eq_bind, bind_some,
        if_neg enough]
      by_cases zero : length = 0
      · have empty : value = [] := by
          apply length_eq_zero_iff.mp
          rw [whole, zero]
          rfl
        rw [if_pos zero]
        obtain ⟨result, ran, results⟩ := further (by rw [taken, attributeTaken, if_pos empty])
        refine ⟨result, ?_, results⟩
        rw [← ran, zero]
        rfl
      · have some' : value ≠ [] := by
          rintro rfl
          exact zero (UInt8.toNat.inj whole.symm)
        have read : reader.bytesAt (front.length + 2 + 2) length.toNat = some value := by
          have content : (1 : UInt8) :: count :: front ++ (kind :: length :: value ++ behind) =
              (1 :: count :: front ++ [kind, length]) ++ value ++ behind := by
            simp only [cons_append, append_assoc, nil_append]
          rw [content] at held
          have bytes := held.bytesAt
          rw [whole, length_append] at bytes
          exact bytes
        rw [if_neg zero, read, bind_some]
        rw [attributeTaken, if_neg some'] at taken
        cases known : chapAttribute settings kind value with
        | none =>
          rw [known] at taken
          rw [feeds_append, taken] at fed
          cases fed
        | some stopped =>
          rw [known, bind_some] at taken
          cases stopped with
          | none =>
            obtain ⟨result, ran, results⟩ := further taken
            refine ⟨result, ?_, results⟩
            rw [← ran, ← Nat.add_assoc]
            rfl
          | some outcome => exact ⟨.stops outcome, rfl, stopped_meets taken fed late⟩

theorem feeds_head (version count : UInt8) (rest : Bytes) :
    feeds settings (.header []) (version :: count :: rest) =
      if version ≠ 1 then some (.finished, [.fails (.message invalidText)])
      else feeds settings (attributes count.toNat) rest := by
  have begun : feeds settings (.header []) [version] = some (.header [version], []) := rfl
  have split : version :: count :: rest = [version] ++ (count :: rest) := rfl
  rw [split, feeds_silent begun, feeds, feed]
  by_cases wrong : version ≠ 1
  · rw [if_pos wrong, if_pos wrong]
    change (feeds settings .finished rest).map _ = _
    rw [feeds_finished]
    rfl
  · rw [if_neg wrong, if_neg wrong, bind_some]
    cases feeds settings (attributes count.toNat) rest <;> rfl

theorem nextMessage_held {front rest : Bytes} (held : Held reader (front ++ rest) 259) :
    ∃ block stored, reader.readBuffer = some block ∧
      block.load front.length rest.length = some (rest.map some) ∧
      block.store 0 (rest.map some) = some stored ∧
      Held { reader with readBuffer := some stored, readLen := rest.length } rest 259 := by
  have sized := held.sized
  obtain ⟨block, found, length, initial, loaded⟩ := held.load
  obtain ⟨stored, moved, same, longer⟩ := @moved_front block front rest [] initial
    (Nat.zero_le _) nil_prefix
  exact ⟨block, stored, found, loaded, moved, ⟨stored, rfl, same.trans length, longer⟩, sized, rfl⟩

theorem chapMessages_meets {content : Bytes} (rounds : Nat) (enough : content.length < rounds)
    (held : Held reader content 259) (fed : feeds settings (.header []) content = some next)
    (late : ¬ActsEarly settings (.header []) content) :
    ∃ outcome, chapMessages settings rounds reader = some outcome ∧
      Meets .s5Readchap outcome next := by
  induction rounds generalizing reader content with
  | zero => exact absurd enough (Nat.not_lt_zero _)
  | succ rounds ih =>
    have counted := held.counted
    match content with
    | [] =>
      cases fed
      have few : reader.readLen < 2 := counted ▸ Nat.zero_lt_two
      exact ⟨.waits reader, if_pos few, ⟨rfl, Nat.zero_lt_two, held.ready⟩, rfl⟩
    | [_] =>
      cases fed
      have few : reader.readLen < 2 := counted ▸ Nat.one_lt_two
      exact ⟨.waits reader, if_pos few, ⟨rfl, Nat.one_lt_two, held.ready⟩, rfl⟩
    | version :: count :: rest =>
      have many : ¬reader.readLen < 2 := by
        rw [counted, length_cons, length_cons]
        omega
      have first : reader.byteAt 0 = some version := held.byteAt 0
      have second : reader.byteAt 1 = some count := held.byteAt 1
      rw [feeds_head] at fed
      by_cases wrong : version ≠ 1
      · rw [if_pos wrong] at fed
        cases fed
        refine ⟨disconnect invalidText, ?_, rfl⟩
        simp only [chapMessages, if_neg many, s5ParseChapMsg, first, bind_eq_bind,
          bind_some, if_pos wrong]
        rfl
      · rw [if_neg wrong] at fed
        have one : version = 1 := not_not.mp wrong
        have attributesLate : ¬ActsEarly settings (attributes count.toNat) rest := by
          intro early
          have silent : feeds settings (.header []) [version, count] =
              some (attributes count.toNat, []) := by
            rw [feeds_head, if_neg wrong]
            rfl
          exact late (actsEarly_behind silent early)
        rw [one] at held first
        obtain ⟨result, parsed, results⟩ := @chapAttributes_results settings reader [] rest count
          next count.toNat count.toNat_lt held fed attributesLate
        have message : s5ParseChapMsg settings reader = some result := by
          simp only [s5ParseChapMsg, first, bind_eq_bind, bind_some, second,
            ne_eq, not_true_eq_false, if_false]
          exact parsed
        simp only [chapMessages, if_neg many, message, bind_eq_bind, bind_some]
        cases result with
        | stops outcome => exact ⟨outcome, rfl, results⟩
        | processed taken =>
          obtain ⟨front, behind, split, length, two, fedBehind, lateBehind⟩ := results
          have content' : (1 : UInt8) :: count :: rest = front ++ behind := split
          rw [content'] at held
          have size : reader.readLen - taken = behind.length := by
            rw [held.counted, length_append, length]
            omega
          dsimp only
          rw [size]
          by_cases more : 0 < behind.length
          · obtain ⟨block, stored, found, loaded, moved, heldBehind⟩ := nextMessage_held held
            rw [length] at loaded
            have shorter : behind.length < rounds := by
              have lengths := congrArg List.length content'
              rw [length_cons, length_cons, length_append] at lengths
              rw [length_cons, length_cons] at enough
              omega
            rw [if_pos more, found, bind_some, loaded, bind_some, moved]
            exact ih shorter heldBehind fedBehind lateBehind
          · have nothing : behind = [] := by
              apply length_eq_zero_iff.mp
              omega
            rw [nothing] at fedBehind
            cases fedBehind
            rw [if_neg more]
            exact ⟨_, rfl, ⟨rfl, Nat.zero_lt_two, held_allocated rfl 259⟩, rfl⟩

theorem readchap_meets {content bytes : Bytes} (held : Held reader (content ++ bytes) 259)
    (silent : feeds settings (.header []) content = some (awaiting, []))
    (fed : feeds settings awaiting bytes = some next) (late : ¬ActsEarly settings awaiting bytes) :
    ∃ outcome, chapMessages settings (reader.readLen + 1) reader = some outcome ∧
      Meets .s5Readchap outcome next := by
  refine chapMessages_meets _ ?_ held (by rw [feeds_silent silent, fed]) ?_
  · rw [held.counted]
    exact Nat.lt_succ_self _
  · exact fun early => late (actsEarly_of_behind silent early)

end Purple.Proxy
