/-
When the chunk parsers keep to the buffer and to the fields of their results.

A string must be shorter than its field, as its terminator is stored behind it.  The
resources of a custom resource chunk are checked against the data and not against their
announced total, so what counts is where the walk over them leads.
-/

import Purple.Mxit.Chunk

namespace Purple.Mxit

open List Option CString Endian

/-- The bytes behind a string, or the same ones where it does not lie in the buffer. -/
def afterString (rest : Bytes) : Bytes :=
  if (getInt16 rest).2.length < (getInt16 rest).1 then rest
  else (getInt16 rest).2.drop (getInt16 rest).1

def StringFits (size : Nat) (rest : Bytes) : Prop :=
  (getInt16 rest).1 ≤ (getInt16 rest).2.length → (getInt16 rest).1 < size

def afterData (count : Nat) (rest : Bytes) : Bytes :=
  if rest.length < count then rest else rest.drop count

def OfferFits (filenameMax : Nat) (chunkdata : Bytes) : Prop :=
  let username := afterData 8 chunkdata
  let filename := (getInt32 (afterString username)).2
  StringFits 65 username ∧ StringFits filenameMax filename ∧ StringFits 64 (afterString filename)

/-- Where the walk over the resources comes to, and what is left of their total then. -/
inductive Walked (chunkdata : Bytes) (start total : Nat) : Nat → Nat → Prop
  | first : Walked chunkdata start total start total
  | next {pos left : Nat} (before : Walked chunkdata start total pos left)
      (enough : chunkHeaderSize ≤ left)
      (whole : pos + chunkHeaderSize + chunkLength chunkdata pos ≤ chunkdata.length) :
      Walked chunkdata start total (pos + chunkStep chunkdata pos)
        (chunksLeft left (chunkStep chunkdata pos))

/-- Every header that is read lies in the buffer, and no chunk in it has 2^32 bytes. -/
def WalkFits (chunkdata : Bytes) (start total : Nat) : Prop :=
  ∀ pos left, Walked chunkdata start total pos left → chunkHeaderSize ≤ left →
    pos + chunkHeaderSize ≤ chunkdata.length ∧
      (pos + chunkHeaderSize + chunkLength chunkdata pos ≤ chunkdata.length →
        chunkStep chunkdata pos ≠ 0)

def CrFits (chunkdata : Bytes) : Prop :=
  let total := getInt32 (getInt8 (afterString (afterString chunkdata))).2
  let start := chunkdata.length - total.2.length
  StringFits 64 chunkdata ∧ StringFits 64 (afterString chunkdata) ∧
    (start + total.1 ≤ chunkdata.length → WalkFits chunkdata start total.1)

def SendfileFits (chunkdata : Bytes) : Prop :=
  let username := (getInt16 chunkdata).2
  0 < (getInt16 chunkdata).1 →
    StringFits 65 username ∧ StringFits 1024 (getInt32 (afterString username)).2

def AvatarFits (chunkdata : Bytes) : Prop :=
  let mxitid := (getInt32 chunkdata).2
  0 < (getInt32 chunkdata).1 →
    StringFits 50 mxitid ∧ StringFits 64 (afterString mxitid) ∧
      StringFits 16 (afterString (afterString mxitid))

/-- A pointer that is returned points, with its length, into the buffer. -/
def Inside (chunkdata : Bytes) (data : Option Nat) (length : Nat) : Prop :=
  ∀ offset, data = some offset → offset + length ≤ chunkdata.length

/-- The run ends without a read or a write outside, and its pointers lie in the buffer. -/
def Keeps {Chunk : Type} (chunkdata : Bytes) (pointers : Chunk → List (Option Nat × Nat))
    (run : Option (Bool × Chunk)) : Prop :=
  ∃ parsed, run = some parsed ∧ ∀ pointer ∈ pointers parsed.2, Inside chunkdata pointer.1 pointer.2

def noPointers {Chunk : Type} (_ : Chunk) : List (Option Nat × Nat) := []

def Resource.pointers : Resource → List (Option Nat × Nat)
  | .splash chunk => [(chunk.data, chunk.datalen)]
  | .click => []

variable {rest chunkdata : Bytes} {pos count : Nat}

theorem store_some {field data : Bytes} {at_ : Nat} (room : at_ + data.length ≤ field.length) :
    ∃ stored, store field at_ data = some stored ∧ stored.length = field.length ∧
      ∀ byte ∈ data, byte ∈ stored := by
  refine ⟨_, if_pos room, ?_, ?_⟩
  · simp only [length_append, length_take, List.length_drop]
    omega
  · intro byte member
    exact mem_append_right _ (mem_append_left _ member)

theorem getUtf8String_fits {field : Bytes} (fits : StringFits field.length rest) :
    ∃ stored, getUtf8String rest field = some (stored, afterString rest) ∧
      stored.length = field.length ∧ (0 ∈ field → 0 ∈ stored) := by
  unfold getUtf8String afterString
  dsimp only
  by_cases outside : (getInt16 rest).2.length < (getInt16 rest).1
  · rw [if_pos outside, if_pos outside]
    exact ⟨field, rfl, rfl, fun member => member⟩
  · have short := fits (Nat.le_of_not_lt outside)
    have front : ((getInt16 rest).2.take (getInt16 rest).1).length = (getInt16 rest).1 := by
      rw [length_take]
      omega
    have room : 0 + ((getInt16 rest).2.take (getInt16 rest).1).length ≤ field.length := by omega
    obtain ⟨copied, copy, copiedLength, _⟩ := store_some room
    have roomBehind : (getInt16 rest).1 + [(0 : UInt8)].length ≤ copied.length := by
      rw [length_singleton]
      omega
    obtain ⟨stored, terminate, storedLength, holds⟩ := store_some roomBehind
    rw [if_neg outside, if_neg outside, if_neg (by omega), getData, if_neg outside, copy, map_some,
      bind_some, terminate]
    exact ⟨stored, rfl, storedLength.trans copiedLength, fun _ => holds 0 mem_cons_self⟩

theorem getUtf8String_over {field : Bytes} (past : ¬ StringFits field.length rest) :
    getUtf8String rest field = none := by
  unfold StringFits at past
  push Not at past
  obtain ⟨inside, long⟩ := past
  -- the terminator is stored behind the last byte of the field
  have len : (if field.length < (getInt16 rest).1 then field.length else (getInt16 rest).1) =
      field.length := by
    split
    · rfl
    · omega
  have front : ((getInt16 rest).2.take field.length).length = field.length := by
    rw [length_take]
    omega
  have room : 0 + ((getInt16 rest).2.take field.length).length ≤ field.length := by omega
  obtain ⟨copied, copy, copiedLength, _⟩ := store_some room
  have behind : ¬ field.length + [(0 : UInt8)].length ≤ copied.length := by
    rw [length_singleton]
    omega
  unfold getUtf8String
  dsimp only
  rw [if_neg (by omega), len, getData, if_neg (by omega), copy, map_some, bind_some, store,
    if_neg behind]
  rfl

theorem walked_start {start total left : Nat} (walked : Walked chunkdata start total pos left)
    {to_ rest : Nat} (later : Walked chunkdata pos left to_ rest) :
    Walked chunkdata start total to_ rest := by
  induction later with
  | first => exact walked
  | next _ enough whole ih => exact Walked.next ih enough whole

theorem walked_head {start total left : Nat} (walked : Walked chunkdata start total pos left) :
    (pos = start ∧ left = total) ∨
      (chunkHeaderSize ≤ total ∧
        start + chunkHeaderSize + chunkLength chunkdata start ≤ chunkdata.length ∧
        Walked chunkdata (start + chunkStep chunkdata start)
          (chunksLeft total (chunkStep chunkdata start)) pos left) := by
  induction walked with
  | first => exact Or.inl ⟨rfl, rfl⟩
  | next _ enough whole ih =>
    right
    obtain ⟨rfl, rfl⟩ | ⟨first, inside, later⟩ := ih
    · exact ⟨enough, whole, Walked.first⟩
    · exact ⟨first, inside, Walked.next later enough whole⟩

theorem crLoop_iff (chunkdata : Bytes) (pos chunkslen : Nat) :
    (∃ done, crLoop chunkdata pos chunkslen = some done) ↔ WalkFits chunkdata pos chunkslen := by
  fun_induction crLoop chunkdata pos chunkslen with
  | case1 pos chunkslen short =>
    refine iff_of_true ⟨_, rfl⟩ ?_
    intro at_ left walked enough
    obtain ⟨rfl, rfl⟩ | ⟨first, _, _⟩ := walked_head walked
    · omega
    · omega
  | case2 pos chunkslen enough outside =>
    refine iff_of_false (fun done => by cases done.choose_spec) ?_
    intro fits
    have header := (fits pos chunkslen Walked.first (Nat.le_of_not_lt enough)).1
    omega
  | case3 pos chunkslen enough inside long =>
    refine iff_of_true ⟨_, rfl⟩ ?_
    intro at_ left walked _
    obtain ⟨rfl, rfl⟩ | ⟨_, whole, _⟩ := walked_head walked
    · exact ⟨by omega, fun whole => by omega⟩
    · omega
  | case4 pos chunkslen enough inside whole still =>
    refine iff_of_false (fun done => by cases done.choose_spec) ?_
    intro fits
    exact (fits pos chunkslen Walked.first (Nat.le_of_not_lt enough)).2 (by omega) still
  | case5 pos chunkslen enough inside whole moves ih =>
    have same : (∃ done, (crLoop chunkdata (pos + chunkStep chunkdata pos)
        (chunksLeft chunkslen (chunkStep chunkdata pos))).map (fun done : Bool × List Resource =>
          (done.1, resourceAt chunkdata pos ++ done.2)) = some done) ↔
        ∃ done, crLoop chunkdata (pos + chunkStep chunkdata pos)
          (chunksLeft chunkslen (chunkStep chunkdata pos)) = some done := by
      constructor
      · intro ended
        obtain ⟨done, ended⟩ := ended
        obtain ⟨rest, ran, _⟩ := map_eq_some_iff.mp ended
        exact ⟨rest, ran⟩
      · intro ended
        obtain ⟨rest, ran⟩ := ended
        exact ⟨_, by rw [ran]; rfl⟩
    rw [same, ih]
    constructor
    · intro fits at_ left walked least
      obtain ⟨rfl, rfl⟩ | ⟨_, _, later⟩ := walked_head walked
      · exact ⟨by omega, fun _ => moves⟩
      · exact fits at_ left later least
    · intro fits at_ left walked least
      have here : Walked chunkdata pos chunkslen pos chunkslen := Walked.first
      have step := Walked.next here (Nat.le_of_not_lt enough) (by omega)
      exact fits at_ left (walked_start step walked) least

theorem parseSplash_inside (start : Nat) (data : Bytes) :
    ∀ offset, (mxitChunkParseSplash start data).2.data = some offset →
      offset + (mxitChunkParseSplash start data).2.datalen ≤ start + data.length := by
  intro offset pointed
  unfold mxitChunkParseSplash at pointed ⊢
  split at pointed
  · cases pointed
  · rename_i long
    rw [if_neg long]
    dsimp only at pointed ⊢
    split at pointed
    · rename_i inside
      cases pointed
      have least := Nat.mod_le
        (data.length - (data.length - (getInt32 (getInt8 (getInt8 data).2).2).2.length)) (2 ^ 32)
      omega
    · cases pointed

theorem resourceAt_inside
    (whole : pos + chunkHeaderSize + chunkLength chunkdata pos ≤ chunkdata.length) :
    ∀ pointer ∈ (resourceAt chunkdata pos).flatMap Resource.pointers,
      Inside chunkdata pointer.1 pointer.2 := by
  intro pointer member
  unfold resourceAt at member
  split at member
  · dsimp only at member
    split at member
    · rw [flatMap_singleton] at member
      rw [mem_singleton.mp member]
      intro offset pointed
      have inside := parseSplash_inside _ _ offset pointed
      rw [length_take, List.length_drop] at inside
      dsimp only
      omega
    · exact absurd member not_mem_nil
  · split at member
    · exact absurd member not_mem_nil
    · exact absurd member not_mem_nil

theorem crLoop_inside {chunkslen : Nat} {done : Bool × List Resource}
    (ran : crLoop chunkdata pos chunkslen = some done) :
    ∀ pointer ∈ done.2.flatMap Resource.pointers, Inside chunkdata pointer.1 pointer.2 := by
  fun_induction crLoop chunkdata pos chunkslen generalizing done with
  | case1 => cases ran; exact fun _ member => absurd member not_mem_nil
  | case2 => cases ran
  | case3 => cases ran; exact fun _ member => absurd member not_mem_nil
  | case4 => cases ran
  | case5 pos chunkslen enough inside whole moves ih =>
    obtain ⟨rest, later, rfl⟩ := map_eq_some_iff.mp ran
    intro pointer member
    rw [flatMap_append] at member
    obtain here | there := mem_append.mp member
    · exact resourceAt_inside (by omega) pointer here
    · exact ih later pointer there

theorem getData_zeros (count : Nat) (rest : Bytes) :
    ∃ field, getData rest (zeros count) count = some (field, afterData count rest) := by
  unfold getData afterData
  split
  · exact ⟨_, rfl⟩
  · have size : (zeros count).length = count := length_replicate
    have room : 0 + (rest.take count).length ≤ (zeros count).length := by
      rw [length_take]
      omega
    obtain ⟨stored, copy, _⟩ := store_some room
    exact ⟨stored, by rw [copy]; rfl⟩

theorem mxitStripDomain_some {username : Bytes} (ended : 0 ∈ username) :
    ∃ stripped, mxitStripDomain username = some stripped := by
  rw [mxitStripDomain, if_pos ended]
  split
  · rename_i suffix
    have two := suffix.length_le
    have least := (cString_initial username).length_le
    have size : (ascii "@m").length = 2 := rfl
    have room : (cString username).length - 2 + [(0 : UInt8)].length ≤ username.length := by
      rw [length_singleton]
      omega
    obtain ⟨stripped, stored, _⟩ := store_some room
    exact ⟨stripped, stored⟩
  · exact ⟨username, rfl⟩

theorem zeros_length (count : Nat) : (zeros count).length = count := length_replicate

theorem fits_zeros (fits : StringFits count rest) :
    ∃ stored, getUtf8String rest (zeros count) = some (stored, afterString rest) ∧
      (0 < count → 0 ∈ stored) := by
  have sized : StringFits (zeros count).length rest := by
    rw [zeros_length]
    exact fits
  obtain ⟨stored, read, _, ended⟩ := getUtf8String_fits sized
  exact ⟨stored, read, fun some_ => ended (mem_replicate.mpr ⟨Nat.ne_of_gt some_, rfl⟩)⟩

theorem past_zeros (past : ¬ StringFits count rest) : getUtf8String rest (zeros count) = none := by
  apply getUtf8String_over
  rw [zeros_length]
  exact past

theorem keeps_string {Chunk : Type} {pointers : Chunk → List (Option Nat × Nat)}
    {further : Bytes × Bytes → Option (Bool × Chunk)} {Fit : Prop}
    (goes : ∀ stored, (0 < count → 0 ∈ stored) →
      (Keeps chunkdata pointers (further (stored, afterString rest)) ↔ Fit)) :
    Keeps chunkdata pointers ((getUtf8String rest (zeros count)).bind further) ↔
      StringFits count rest ∧ Fit := by
  by_cases fits : StringFits count rest
  · obtain ⟨stored, read, ended⟩ := fits_zeros fits
    rw [read, bind_some, goes stored ended]
    exact ⟨fun fit => ⟨fits, fit⟩, fun both => both.2⟩
  · rw [past_zeros fits]
    exact iff_of_false (fun keeps => by cases keeps.choose_spec.1) fun both => fits both.1

theorem keeps_last {Chunk : Type} {pointers : Chunk → List (Option Nat × Nat)}
    {further : Bytes × Bytes → Bool × Chunk}
    (inside : ∀ stored, ∀ pointer ∈ pointers (further (stored, afterString rest)).2,
      Inside chunkdata pointer.1 pointer.2) :
    Keeps chunkdata pointers ((getUtf8String rest (zeros count)).map further) ↔
      StringFits count rest := by
  have goes : ∀ stored, (0 < count → 0 ∈ stored) →
      (Keeps chunkdata pointers ((some ∘ further) (stored, afterString rest)) ↔ True) := by
    intro stored _
    exact iff_of_true ⟨_, rfl, inside stored⟩ trivial
  rw [map_eq_bind, keeps_string goes, and_true]

theorem noPointers_inside {Chunk : Type} (chunkdata : Bytes) (chunk : Chunk) :
    ∀ pointer ∈ noPointers chunk, Inside chunkdata pointer.1 pointer.2 :=
  fun _ member => absurd member not_mem_nil

theorem mxitChunkParseOffer_keeps (filenameMax : Nat) (chunkdata : Bytes) :
    Keeps chunkdata noPointers (mxitChunkParseOffer filenameMax chunkdata) ↔
      OfferFits filenameMax chunkdata := by
  obtain ⟨fileid, read⟩ := getData_zeros 8 chunkdata
  unfold mxitChunkParseOffer OfferFits
  rw [read, bind_some]
  dsimp only
  apply keeps_string
  intro username ended
  obtain ⟨stripped, strip⟩ := mxitStripDomain_some (ended (by decide))
  dsimp only
  rw [strip, bind_some]
  apply keeps_string
  intro filename _
  apply keeps_last
  exact fun _ => noPointers_inside chunkdata _

theorem mxitChunkParseSendfile_keeps (chunkdata : Bytes) :
    Keeps chunkdata noPointers (mxitChunkParseSendfile chunkdata) ↔ SendfileFits chunkdata := by
  unfold mxitChunkParseSendfile SendfileFits
  dsimp only
  by_cases none_ : (getInt16 chunkdata).1 < 1
  · rw [if_pos none_]
    exact iff_of_true ⟨_, rfl, noPointers_inside chunkdata _⟩ fun some_ => by omega
  · rw [if_neg none_]
    have both : (0 < (getInt16 chunkdata).1 → StringFits 65 (getInt16 chunkdata).2 ∧
        StringFits 1024 (getInt32 (afterString (getInt16 chunkdata).2)).2) ↔
        StringFits 65 (getInt16 chunkdata).2 ∧
          StringFits 1024 (getInt32 (afterString (getInt16 chunkdata).2)).2 :=
      ⟨fun fits => fits (by omega), fun fits _ => fits⟩
    rw [both]
    apply keeps_string
    intro username _
    exact keeps_last fun _ => noPointers_inside chunkdata _

theorem nowhere_inside (chunkdata : Bytes) (length : Nat) :
    ∀ pointer ∈ [((none : Option Nat), length)], Inside chunkdata pointer.1 pointer.2 := by
  intro pointer member
  rw [mem_singleton.mp member]
  intro offset pointed
  cases pointed

theorem checked_inside {length : Nat}
    (fits : ¬ chunkdata.length - (chunkdata.length - rest.length) < length) :
    ∀ pointer ∈ [(if 0 < length then some (chunkdata.length - rest.length) else none, length)],
      Inside chunkdata pointer.1 pointer.2 := by
  intro pointer member
  rw [mem_singleton.mp member]
  intro offset pointed
  dsimp only at pointed ⊢
  split at pointed
  · cases pointed
    omega
  · cases pointed

theorem mxitChunkParseGet_keeps (chunkdata : Bytes) :
    Keeps chunkdata (fun chunk => [(chunk.data, chunk.length)]) (mxitChunkParseGet chunkdata) := by
  obtain ⟨fileid, read⟩ := getData_zeros 8 chunkdata
  unfold mxitChunkParseGet
  by_cases short : chunkdata.length < 20
  · rw [if_pos short]
    exact ⟨_, rfl, nowhere_inside chunkdata 0⟩
  · rw [if_neg short, read, map_some]
    refine ⟨_, rfl, ?_⟩
    dsimp only
    split
    · exact nowhere_inside chunkdata _
    · rename_i fits
      exact checked_inside fits

theorem mxitChunkParseSplash_keeps (chunkdata : Bytes) :
    Keeps chunkdata (fun chunk => [(chunk.data, chunk.datalen)])
      (some (mxitChunkParseSplash 0 chunkdata)) := by
  refine ⟨_, rfl, ?_⟩
  intro pointer member
  rw [mem_singleton.mp member]
  intro offset pointed
  have inside := parseSplash_inside 0 chunkdata offset pointed
  rw [Nat.zero_add] at inside
  exact inside

theorem avatarNumbers_inside (chunkdata mxitid avatarid : Bytes) (format : Bytes × Bytes) :
    ∀ pointer ∈ [((avatarNumbers chunkdata mxitid avatarid format).2.data,
      (avatarNumbers chunkdata mxitid avatarid format).2.length)],
      Inside chunkdata pointer.1 pointer.2 := by
  unfold avatarNumbers
  dsimp only
  split
  · exact nowhere_inside chunkdata _
  · rename_i fits
    exact checked_inside fits

theorem mxitChunkParseGetAvatar_keeps (chunkdata : Bytes) :
    Keeps chunkdata (fun chunk => [(chunk.data, chunk.length)]) (mxitChunkParseGetAvatar chunkdata) ↔
      AvatarFits chunkdata := by
  unfold mxitChunkParseGetAvatar AvatarFits
  dsimp only
  by_cases none_ : (getInt32 chunkdata).1 < 1
  · rw [if_pos none_]
    exact iff_of_true ⟨_, rfl, nowhere_inside chunkdata 0⟩ fun some_ => by omega
  · rw [if_neg none_]
    have some_ : 0 < (getInt32 chunkdata).1 := by omega
    rw [imp_iff_right some_]
    apply keeps_string
    intro mxitid _
    apply keeps_string
    intro avatarid _
    apply keeps_last
    intro format
    generalize (format, afterString (afterString (afterString (getInt32 chunkdata).2))) = parsed
    exact avatarNumbers_inside chunkdata mxitid avatarid parsed

theorem mxitChunkParseCr_keeps (chunkdata : Bytes) :
    Keeps chunkdata (fun chunk => chunk.resources.flatMap Resource.pointers)
      (mxitChunkParseCr chunkdata) ↔ CrFits chunkdata := by
  unfold mxitChunkParseCr CrFits
  dsimp only
  apply keeps_string
  intro id _
  apply keeps_string
  intro handle _
  dsimp only
  by_cases long : chunkdata.length < chunkdata.length -
      (getInt32 (getInt8 (afterString (afterString chunkdata))).2).2.length +
      (getInt32 (getInt8 (afterString (afterString chunkdata))).2).1
  · rw [if_pos long]
    exact iff_of_true ⟨_, rfl, fun _ member => absurd member not_mem_nil⟩ fun inside => by omega
  · rw [if_neg long, imp_iff_right (Nat.le_of_not_lt long), ← crLoop_iff]
    constructor
    · intro keeps
      obtain ⟨parsed, ran, _⟩ := keeps
      obtain ⟨done, looped, _⟩ := map_eq_some_iff.mp ran
      exact ⟨done, looped⟩
    · intro ended
      obtain ⟨done, looped⟩ := ended
      exact ⟨_, by rw [looped]; rfl, crLoop_inside looped⟩

/-- Every parser keeps to the buffer and to its fields exactly for the data that fits. -/
theorem mxitChunkParse_keeps_iff (filenameMax : Nat) (chunkdata : Bytes) :
    (Keeps chunkdata noPointers (mxitChunkParseOffer filenameMax chunkdata) ↔
      OfferFits filenameMax chunkdata) ∧
    Keeps chunkdata (fun chunk => [(chunk.data, chunk.length)]) (mxitChunkParseGet chunkdata) ∧
    Keeps chunkdata (fun chunk => [(chunk.data, chunk.datalen)])
      (some (mxitChunkParseSplash 0 chunkdata)) ∧
    (Keeps chunkdata (fun chunk => chunk.resources.flatMap Resource.pointers)
      (mxitChunkParseCr chunkdata) ↔ CrFits chunkdata) ∧
    (Keeps chunkdata noPointers (mxitChunkParseSendfile chunkdata) ↔ SendfileFits chunkdata) ∧
    (Keeps chunkdata (fun chunk => [(chunk.data, chunk.length)])
      (mxitChunkParseGetAvatar chunkdata) ↔ AvatarFits chunkdata) :=
  ⟨mxitChunkParseOffer_keeps filenameMax chunkdata, mxitChunkParseGet_keeps chunkdata,
    mxitChunkParseSplash_keeps chunkdata, mxitChunkParseCr_keeps chunkdata,
    mxitChunkParseSendfile_keeps chunkdata, mxitChunkParseGetAvatar_keeps chunkdata⟩

theorem nothing_keeps {Chunk : Type} {pointers : Chunk → List (Option Nat × Nat)}
    {run : Option (Bool × Chunk)} (fails : run = none) : ¬ Keeps chunkdata pointers run := by
  intro keeps
  obtain ⟨parsed, ran, _⟩ := keeps
  rw [fails] at ran
  cases ran

/-- A name of 65 bytes has its terminator behind the field, and a resource that is longer than the
    announced total makes the loop read a header behind the data. -/
theorem mxitChunkParse_outside :
    ¬ Keeps (zeros 8 ++ [0, 65] ++ List.replicate 65 97) noPointers
      (mxitChunkParseOffer 4096 (zeros 8 ++ [0, 65] ++ List.replicate 65 97)) ∧
    ¬ Keeps [0, 0, 0, 0, 0, 0, 0, 0, 5, 3, 0, 0, 0, 1, 0]
      (fun chunk => chunk.resources.flatMap Resource.pointers)
      (mxitChunkParseCr [0, 0, 0, 0, 0, 0, 0, 0, 5, 3, 0, 0, 0, 1, 0]) := by
  constructor
  · apply nothing_keeps
    decide +kernel
  · apply nothing_keeps
    decide +kernel

end Purple.Mxit
