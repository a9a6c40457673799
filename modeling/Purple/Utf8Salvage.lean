/-
`purple_utf8_salvage` of util.c: what is not UTF-8 becomes question marks.

A round copies what `g_utf8_validate` accepts, and writes a question mark for the byte
it stopped at and for every byte behind it that cannot start a character.
-/

import Purple.UrlDecode

namespace Purple.Utf8Salvage

open List Option CString Utf8 UrlDecode

def utf8First (byte : UInt8) : Bool :=
  byte &&& 0x80 = 0 || byte &&& 0xe0 = 0xc0 || byte &&& 0xf0 = 0xe0 || byte &&& 0xf8 = 0xf0

def salvageLoop (str : Bytes) : Bytes :=
  let valid := gUtf8Validate str
  let rest := str.drop valid.length
  if filled : rest = [] then valid
  else
    let skipped := rest.tail.takeWhile fun byte => !utf8First byte
    valid ++ 63 :: List.replicate skipped.length 63 ++ salvageLoop (rest.tail.drop skipped.length)
termination_by str.length
decreasing_by
  have positive := length_pos_iff.mpr filled
  rw [List.length_drop] at positive
  rw [List.length_drop, length_tail, List.length_drop]
  omega

def purpleUtf8Salvage (str : Bytes) : Bytes := salvageLoop (cString str)

/-- The byte at this place is in a part of the string that is valid. -/
def InValid (str : Bytes) (i : Nat) : Prop :=
  ∃ front valid behind, str = front ++ valid ++ behind ∧ gUtf8Validate valid = valid ∧
    front.length ≤ i ∧ i < front.length + valid.length

structure Salvaged (str result : Bytes) : Prop where
  length : result.length = str.length
  valid : gUtf8Validate result = result
  kept : ∀ i, InValid str i → result[i]? = str[i]?
  marked : ∀ i < str.length, ¬InValid str i → result[i]? = some 63

/-- The automaton reads the text and is between two characters behind it. -/
def Whole (state : Utf8State) (text : Bytes) : Prop :=
  text.foldlM Utf8State.next state = some .start

variable {state after : Utf8State} {byte : UInt8} {pending text front behind : Bytes}

theorem whole_cons (step : state.next byte = some after) :
    Whole state (byte :: text) ↔ Whole after text := by
  rw [Whole, foldlM_cons, step]
  rfl

theorem whole_append (first : Whole state front) :
    Whole state (front ++ behind) ↔ Whole .start behind := by
  rw [Whole, foldlM_append, first]
  rfl

theorem lead_first (starts : leadByte byte ≠ none) :
    utf8First byte = true ∧ ¬(0x80 ≤ byte ∧ byte ≤ 0xBF) := by
  have all : (List.range 256).all fun number =>
      (leadByte (UInt8.ofNat number)).isNone || decide (utf8First (UInt8.ofNat number) = true ∧
        ¬(0x80 ≤ UInt8.ofNat number ∧ UInt8.ofNat number ≤ 0xBF)) := by
    decide +kernel
  have here := List.all_eq_true.mp all byte.toNat (mem_range.mpr byte.toNat_lt)
  rw [UInt8.ofNat_toNat, Bool.or_eq_true, isNone_iff_eq_none, decide_eq_true_iff] at here
  exact here.resolve_left starts

theorem lead_between (starts : leadByte byte ≠ none) (step : state.next byte = some after) :
    state = .start := by
  have inside {low high : UInt8} {next : Utf8State} (least : 0x80 ≤ low) (most : high ≤ 0xBF)
      (taken : tailByte low high next byte = some after) : False := by
    rw [tailByte] at taken
    split at taken
    · rename_i within
      exact (lead_first starts).2 ⟨UInt8.le_trans least within.1, UInt8.le_trans within.2 most⟩
    · exact absurd taken (some_ne_none _).symm
  cases state with
  | start => rfl
  | tail1 => exact (inside (by decide) (by decide) step).elim
  | tail2 => exact (inside (by decide) (by decide) step).elim
  | tail3 => exact (inside (by decide) (by decide) step).elim
  | afterE0 => exact (inside (by decide) (by decide) step).elim
  | afterED => exact (inside (by decide) (by decide) step).elim
  | afterF0 => exact (inside (by decide) (by decide) step).elim
  | afterF4 => exact (inside (by decide) (by decide) step).elim

theorem validFrom_step (step : state.next byte = some after) (rest : Bytes) :
    validFrom state pending (byte :: rest) =
      if after = .start then pending ++ byte :: validFrom .start [] rest
      else validFrom after (pending ++ [byte]) rest := by
  rw [validFrom, step]
  cases after with
  | start => rfl
  | _ => rfl

theorem validFrom_stop (stop : state.next byte = none) (rest : Bytes) :
    validFrom state pending (byte :: rest) = [] := by
  rw [validFrom, stop]

/-- What is found ends between two characters. -/
theorem validFrom_whole (state : Utf8State) (pending text : Bytes) :
    validFrom state pending text = [] ∨ ∃ front behind, text = front ++ behind ∧
      validFrom state pending text = pending ++ front ∧ Whole state front := by
  induction text generalizing state pending with
  | nil => exact Or.inl rfl
  | cons byte rest ih =>
    cases step : state.next byte with
    | none => exact Or.inl (validFrom_stop step rest)
    | some after =>
      rw [validFrom_step step]
      split
      · rename_i ended
        rw [ended] at step
        rcases ih .start [] with nothing | ⟨front, behind, parts, found, whole⟩
        · exact Or.inr ⟨[byte], rest, rfl, by rw [nothing], (whole_cons step).mpr rfl⟩
        · exact Or.inr ⟨byte :: front, behind, congrArg (byte :: ·) parts, by rw [found]; rfl,
            (whole_cons step).mpr whole⟩
      · rcases ih after (pending ++ [byte]) with nothing | ⟨front, behind, parts, found, whole⟩
        · exact Or.inl nothing
        · refine Or.inr ⟨byte :: front, behind, congrArg (byte :: ·) parts, ?_,
            (whole_cons step).mpr whole⟩
          rw [found, append_assoc]
          rfl

/-- No text that ends between two characters goes further than what is found. -/
theorem validFrom_longest (filled : front ≠ []) (whole : Whole state front) :
    pending.length + front.length ≤ (validFrom state pending (front ++ behind)).length := by
  induction front generalizing state pending with
  | nil => exact absurd rfl filled
  | cons byte front ih =>
    rw [cons_append, length_cons]
    cases step : state.next byte with
    | none =>
      rw [Whole, foldlM_cons, step] at whole
      exact absurd whole (some_ne_none _).symm
    | some after =>
      rw [whole_cons step] at whole
      rw [validFrom_step step]
      split
      · rename_i ended
        rw [ended] at whole
        rw [length_append, length_cons]
        by_cases last : front = []
        · rw [last, length_nil]
          omega
        · have later := @ih .start [] last whole
          rw [length_nil] at later
          omega
      · rename_i inside
        have more : front ≠ [] := by
          rintro rfl
          exact inside (Option.some.inj whole)
        have later := @ih after (pending ++ [byte]) more whole
        rw [length_append, length_singleton] at later
        omega

theorem validate_split (str : Bytes) : ∃ rest, str = gUtf8Validate str ++ rest ∧
    Whole .start (gUtf8Validate str) := by
  rcases validFrom_whole .start [] str with nothing | ⟨front, behind, parts, found, whole⟩
  · exact ⟨str, by rw [gUtf8Validate, nothing]; rfl, by rw [gUtf8Validate, nothing]; rfl⟩
  · rw [nil_append] at found
    rw [gUtf8Validate, found]
    exact ⟨behind, parts, whole⟩

theorem validate_eq_iff : gUtf8Validate text = text ↔ Whole .start text := by
  constructor
  · intro same
    obtain ⟨-, -, whole⟩ := validate_split text
    rwa [same] at whole
  · intro whole
    by_cases filled : text = []
    · rw [filled]
      rfl
    · have longest := @validFrom_longest .start [] text [] filled whole
      rw [append_nil, length_nil, Nat.zero_add] at longest
      have front := validFrom_initial .start [] text
      exact front.eq_of_length_le longest

/-- A valid part lies in what is found, or behind the byte at which that ends. -/
theorem valid_part (valid : gUtf8Validate text = text) (filled : text ≠ []) :
    front.length + text.length ≤ (gUtf8Validate (front ++ text ++ behind)).length ∨
      ∃ bad tail, front = gUtf8Validate (front ++ text ++ behind) ++ bad :: tail := by
  rw [validate_eq_iff] at valid
  have between (first : Whole .start front) :
      front.length + text.length ≤ (gUtf8Validate (front ++ text ++ behind)).length := by
    have more : front ++ text ≠ [] := fun empty => filled (append_eq_nil_iff.mp empty).2
    have longest := @validFrom_longest .start [] _ behind more ((whole_append first).mpr valid)
    rw [length_nil, Nat.zero_add, length_append] at longest
    exact longest
  obtain ⟨rest, parts, whole⟩ := validate_split (front ++ text ++ behind)
  rw [append_assoc] at parts
  rcases append_eq_append_iff.mp parts with ⟨inside, found, same⟩ | ⟨skipped, found, -⟩
  · refine Or.inl (between ?_)
    rw [append_assoc, found] at whole
    cases inside with
    | nil => rwa [append_nil] at whole
    | cons byte inside =>
      obtain ⟨lead, text, rfl⟩ := exists_cons_of_ne_nil filled
      obtain ⟨rfl, -⟩ := List.cons.inj same
      rw [Whole, foldlM_cons] at valid
      obtain ⟨next, starts, -⟩ := bind_eq_some_iff.mp valid
      rw [Whole, foldlM_append] at whole
      obtain ⟨state, first, later⟩ := bind_eq_some_iff.mp whole
      rw [foldlM_cons] at later
      obtain ⟨after, step, -⟩ := bind_eq_some_iff.mp later
      have lead : leadByte lead ≠ none := by
        intro none
        rw [Utf8State.next, none] at starts
        exact absurd starts (some_ne_none _).symm
      rw [Whole, first, lead_between lead step]
  · rw [append_assoc]
    cases skipped with
    | nil =>
      rw [append_nil] at found
      rw [append_assoc] at whole between
      exact Or.inl (between (by rwa [← found] at whole))
    | cons byte skipped => exact Or.inr ⟨byte, skipped, found⟩

theorem whole_marks (count : Nat) : Whole .start (List.replicate count 63) := by
  induction count with
  | zero => rfl
  | succ count ih => exact (whole_cons (rfl : Utf8State.start.next 63 = some .start)).mpr ih

theorem salvaged_append {valid lost more result : Bytes} (whole : Whole .start valid)
    (rest : Salvaged more result)
    (parts : ∀ i, InValid (valid ++ lost ++ more) i → i < valid.length ∨
      valid.length + lost.length ≤ i ∧ InValid more (i - (valid.length + lost.length))) :
    Salvaged (valid ++ lost ++ more) (valid ++ List.replicate lost.length 63 ++ result) := by
  have ahead {i : Nat} (far : valid.length + lost.length ≤ i) :
      (valid ++ List.replicate lost.length 63 ++ result)[i]? =
        result[i - (valid.length + lost.length)]? := by
    rw [getElem?_append_right (by rwa [length_append, length_replicate]),
      length_append, length_replicate]
  constructor
  case length =>
    simp only [length_append, length_replicate, rest.length]
  case valid =>
    rw [validate_eq_iff, append_assoc, whole_append whole, whole_append (whole_marks _)]
    exact validate_eq_iff.mp rest.valid
  case kept =>
    intro i inside
    rcases parts i inside with near | ⟨far, later⟩
    · rw [append_assoc, append_assoc, getElem?_append_left near,
        getElem?_append_left near]
    · rw [ahead far, rest.kept _ later, getElem?_append_right (by rwa [length_append]),
        length_append]
  case marked =>
    intro i below outside
    have behindValid : valid.length ≤ i := by
      by_contra near
      refine outside ⟨[], valid, lost ++ more, append_assoc .., validate_eq_iff.mpr whole,
        Nat.zero_le i, ?_⟩
      rw [length_nil]
      omega
    by_cases near : i < valid.length + lost.length
    · rw [append_assoc, getElem?_append_right behindValid, getElem?_append_left
        (by rw [length_replicate]; omega), getElem?_replicate, if_pos (by omega)]
    · rw [length_append, length_append] at below
      rw [ahead (by omega)]
      refine rest.marked _ (by omega) ?_
      rintro ⟨front, text, behind, parts, valid_, low, high⟩
      refine outside ⟨valid ++ lost ++ front, text, behind, ?_, valid_, ?_, ?_⟩
      · simp only [parts, append_assoc]
      · simp only [length_append]
        omega
      · simp only [length_append]
        omega

/-- A valid part behind the byte that ends the run is not cut by the marks. -/
theorem marks_stop {skipped more : Bytes} (valid : gUtf8Validate text = text)
    (filled : text ≠ []) (parts : skipped ++ more = front ++ (text ++ behind))
    (tails : ∀ byte ∈ skipped, utf8First byte = false) :
    ∃ rest, front = skipped ++ rest ∧ more = rest ++ text ++ behind := by
  rcases append_eq_append_iff.mp parts with ⟨rest, covered, rfl⟩ | ⟨tail, longer, start⟩
  · exact ⟨rest, covered, (append_assoc ..).symm⟩
  · cases tail with
    | nil =>
      rw [append_nil] at longer
      exact ⟨[], by rw [longer, append_nil], start.symm⟩
    | cons byte tail =>
      obtain ⟨lead, text, rfl⟩ := exists_cons_of_ne_nil filled
      obtain ⟨rfl, -⟩ := List.cons.inj start
      have starts : leadByte lead ≠ none := by
        intro none
        rw [validate_eq_iff, Whole, foldlM_cons, Utf8State.next, none] at valid
        exact absurd valid (some_ne_none _).symm
      have first := tails lead (by rw [longer]; exact mem_append_right _ mem_cons_self)
      rw [(lead_first starts).1] at first
      exact absurd first Bool.true_eq_false.mp

theorem salvageLoop_salvaged (str : Bytes) : Salvaged str (salvageLoop str) := by
  induction size : str.length using Nat.strongRecOn generalizing str with
  | _ size ih =>
    obtain ⟨rest, split, whole⟩ := validate_split str
    rw [salvageLoop]
    generalize found : gUtf8Validate str = valid at split whole
    have behind : str.drop valid.length = rest := by rw [split, drop_left]
    dsimp only
    rw [behind]
    cases rest with
    | nil =>
      rw [append_nil] at split
      rw [dif_pos rfl, ← split]
      rw [← split] at found
      refine ⟨rfl, found, fun _ _ => rfl, ?_⟩
      intro i below outside
      refine absurd ⟨[], str, [], (append_nil str).symm, found, Nat.zero_le i, ?_⟩ outside
      rwa [length_nil, Nat.zero_add]
    | cons bad tail =>
      rw [dif_neg (cons_ne_nil bad tail), tail_cons]
      obtain ⟨more, parts⟩ := takeWhile_prefix (l := tail) fun byte => !utf8First byte
      have tails : ∀ byte ∈ tail.takeWhile fun byte => !utf8First byte,
          utf8First byte = false := by
        intro byte member
        have tail := mem_takeWhile_imp member
        rwa [Bool.not_eq_true'] at tail
      generalize (tail.takeWhile fun byte => !utf8First byte) = skipped at parts tails
      have later : tail.drop skipped.length = more := by rw [← parts, drop_left]
      have whole' : str = valid ++ bad :: skipped ++ more := by
        rw [split, ← parts, append_assoc]
        rfl
      have smaller : more.length < str.length := by
        rw [whole', length_append, length_append, length_cons]
        omega
      rw [later, whole']
      refine salvaged_append whole (ih more.length (size ▸ smaller) more rfl) ?_
      rintro i ⟨front, text, behind, around, valid_, low, high⟩
      have filled : text ≠ [] := by
        rintro rfl
        exact absurd (Nat.lt_of_le_of_lt low high) (Nat.lt_irrefl _)
      have placed := @valid_part text front behind valid_ filled
      rw [← around, ← whole', found] at placed
      rcases placed with near | far
      · exact Or.inl (Nat.lt_of_lt_of_le high near)
      · obtain ⟨byte, tail, rfl⟩ := far
        rw [append_assoc, append_assoc, append_assoc] at around
        obtain ⟨rfl, same⟩ := List.cons.inj (append_cancel_left around)
        obtain ⟨rest, rfl, behindMarks⟩ := marks_stop valid_ filled same tails
        rw [length_append, length_cons, length_append] at low high
        rw [length_cons]
        refine Or.inr ⟨by omega, rest, text, behind, behindMarks, valid_, by omega, by omega⟩

theorem purpleUtf8Salvage_salvages (str : Bytes) :
    Salvaged (cString str) (purpleUtf8Salvage str) ∧
      (gUtf8Validate (cString str) = cString str → purpleUtf8Salvage str = cString str) ∧
      purpleUtf8Salvage (purpleUtf8Salvage str) = purpleUtf8Salvage str := by
  have salvaged : Salvaged (cString str) (purpleUtf8Salvage str) := salvageLoop_salvaged _
  have same {text : Bytes} (valid : gUtf8Validate text = text) : salvageLoop text = text := by
    rw [salvageLoop, valid, drop_length]
    exact dif_pos rfl
  have solid : 0 ∉ purpleUtf8Salvage str := by
    intro nul
    obtain ⟨i, here⟩ := getElem?_of_mem nul
    by_cases inside : InValid (cString str) i
    · rw [salvaged.kept i inside] at here
      have member : (0 : UInt8) ∈ str.takeWhile (· != 0) := mem_of_getElem? here
      have other := mem_takeWhile_imp member
      exact absurd other (by decide)
    · obtain ⟨below, -⟩ := List.getElem?_eq_some_iff.mp here
      rw [salvaged.length] at below
      rw [salvaged.marked i below inside] at here
      exact absurd (Option.some.inj here) (by decide)
  refine ⟨salvaged, same, ?_⟩
  rw [purpleUtf8Salvage, cString_clean solid]
  exact same salvaged.valid

end Purple.Utf8Salvage
