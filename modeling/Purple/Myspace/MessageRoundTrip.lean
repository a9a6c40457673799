/-
Packing a message and parsing it back.

The tokens of a message are paired as they were packed where the elements that pack to
nothing come in twos.  Every element is then found by its name with its own value.
-/

import Purple.Myspace.Base64
import Purple.Myspace.MessageValues

namespace Purple.Myspace

open List Option CString Decimal Separated

variable (base64 : Base64)

/-- The value of an element is given back under its name, and a boolean by its name. -/
def Restores (parsed : MsimMessage) (element : MsimMessageElement MsimData) : Prop :=
  match element.data with
  | .integer value => msimMsgGetInteger parsed element.name.val = value
  | .raw text => (msimMsgGet parsed element.name.val).map contents = some (element.name.val, text.val)
  | .string text => msimMsgGetString parsed element.name.val = some text.val
  | .binary bytes => msimMsgGetBinary base64 parsed element.name.val = some bytes
  | .boolean value => (msimMsgGet parsed element.name.val).isSome = value
  | .dictionary elements =>
    ∃ dictionary, msimMsgGetDictionary parsed element.name.val = some dictionary ∧
      dictionary.map nameAndString = elements.map nameAndString
  | .list items =>
    ∃ elements, msimMsgGetList parsed element.name.val = some (.elements elements) ∧
      elements.map msimMsgGetStringFromElement = items.map fun item => some item.val

def Codable : MsimData → Prop
  | .raw _ => False
  | .dictionary elements =>
    elements ≠ [] ∧ ∀ element ∈ elements, isString element ∧ 61 ∉ element.name.val
  | .list items =>
    items ≠ [] ∧ ∀ item ∈ items, 124 ∉ item.val ∧ 47 ∉ item.val ∧ 92 ∉ item.val
  | _ => True

structure Encodable (msg : MsimMessage) : Prop where
  distinct : (msg.map fun element => element.name.val).Nodup
  names : ∀ element ∈ msg, element.name.val ≠ [] ∧ 92 ∉ element.name.val ∧ hidden element.name = false
  codable : ∀ element ∈ msg, Codable element.data

/-- A list that is not one empty item, and a dictionary whose names are not hidden and have
no backslash, and which does not contain the byte that separates its items. -/
def Readable : MsimData → Prop
  | .list items => items.map (·.val) ≠ [[]]
  | .dictionary elements =>
    ∀ element ∈ elements, hidden element.name = false ∧ 92 ∉ element.name.val ∧
      28 ∉ element.name.val ∧ 28 ∉ stringOf element
  | _ => True

/-- Before every other element there is an even number of booleans that are false. -/
def Paired : Bool → MsimMessage → Prop
  | _, [] => True
  | odd, element :: msg =>
    match element.data with
    | .boolean false => Paired (!odd) msg
    | _ => odd = false ∧ Paired odd msg

def cut (msg : MsimMessage) : Bytes :=
  (text base64 msg).take ((text base64 msg).length - finalString.length)

def wire (data : MsimData) : Bytes := (msimMsgPackElementData base64 data).getD []

def itemOf (element : MsimMessageElement MsimData) : Item :=
  match element.data with
  | .boolean value => if value then some (element.name.val, []) else none
  | data => some (element.name.val, wire base64 data)

variable {element : MsimMessageElement MsimData} {msg : MsimMessage} {pair : Bytes × Bytes}

theorem elementItem_shown (shown : hidden element.name = false) :
    elementItem base64 element = some (itemOf base64 element) := by
  obtain ⟨name, data⟩ := element
  rw [elementItem, shown, if_neg Bool.false_ne_true]
  cases data <;> rfl

theorem items_shown (shown : ∀ element ∈ msg, hidden element.name = false) :
    items base64 msg = msg.map (itemOf base64) := by
  induction msg with
  | nil => rfl
  | cons element msg ih =>
    rw [forall_mem_cons] at shown
    rw [items, filterMap_cons, elementItem_shown base64 shown.1, ← items, ih shown.2]
    rfl

theorem itemOf_name (item : itemOf base64 element = some pair) : pair.1 = element.name.val := by
  obtain ⟨name, data⟩ := element
  cases data with
  | boolean value =>
    cases value with
    | false => cases item
    | true =>
      cases item
      rfl
  | integer | raw | string | binary | dictionary | list =>
    cases item
    rfl

theorem named_find (distinct : (msg.map fun element => element.name.val).Nodup)
    (member : element ∈ msg) :
    (named (msg.map (itemOf base64))).find? (fun pair => pair.1 == element.name.val) =
      itemOf base64 element := by
  induction msg with
  | nil => exact absurd member not_mem_nil
  | cons first msg ih =>
    rw [map_cons, nodup_cons] at distinct
    have absent : ∀ pair ∈ named (msg.map (itemOf base64)), ¬pair.1 = first.name.val := by
      intro pair among same
      obtain ⟨item, inside, rfl⟩ := mem_filterMap.mp among
      obtain ⟨other, here, item'⟩ := List.mem_map.mp inside
      have name := itemOf_name base64 item'
      exact distinct.1 (List.mem_map.mpr ⟨other, here, name.symm.trans same⟩)
    rcases mem_cons.mp member with rfl | later
    · cases item : itemOf base64 element with
      | none =>
        rw [map_cons, item]
        refine find?_eq_none.mpr fun pair among same => ?_
        exact absent pair among (beq_iff_eq.mp same)
      | some pair =>
        rw [map_cons, item]
        exact find?_cons_of_pos (beq_iff_eq.mpr (itemOf_name base64 item))
    · have other : ¬first.name.val = element.name.val := fun same =>
        distinct.1 (List.mem_map.mpr ⟨element, later, same.symm⟩)
      cases item : itemOf base64 first with
      | none =>
        rw [map_cons, item]
        exact ih distinct.2 later
      | some pair =>
        rw [map_cons, item]
        refine (find?_cons_of_neg fun same => other ?_).trans (ih distinct.2 later)
        exact (itemOf_name base64 item).symm.trans (beq_iff_eq.mp same)

def PairedItems : Bool → List Item → Prop
  | _, [] => True
  | odd, none :: items => PairedItems (!odd) items
  | odd, some _ :: items => odd = false ∧ PairedItems odd items

/-- Whether an empty token is still to be paired. -/
def oddAfter : Bool → List Item → Bool
  | odd, [] => odd
  | odd, none :: items => oddAfter (!odd) items
  | odd, some _ :: items => oddAfter odd items

theorem paired_items {odd : Bool} (paired : Paired odd msg) :
    PairedItems odd (msg.map (itemOf base64)) := by
  induction msg generalizing odd with
  | nil => trivial
  | cons element msg ih =>
    obtain ⟨name, data⟩ := element
    cases data with
    | boolean value =>
      cases value with
      | false => exact ih paired
      | true => exact ⟨paired.1, ih paired.2⟩
    | integer | raw | string | binary | dictionary | list => exact ⟨paired.1, ih paired.2⟩

theorem pairedItems_middle {odd : Bool} {front back : List Item}
    (paired : PairedItems odd (front ++ some pair :: back)) :
    PairedItems odd front ∧ oddAfter odd front = false := by
  induction front generalizing odd with
  | nil => exact ⟨trivial, paired.1⟩
  | cons item front ih =>
    cases item with
    | none => exact ih paired
    | some other =>
      have later := ih paired.2
      exact ⟨⟨paired.1, later.1⟩, later.2⟩

def pending (odd : Bool) : List Bytes := if odd then [[]] else []

theorem find_pairs {name : Bytes} (some' : name ≠ []) {odd : Bool} {items : List Item}
    (paired : PairedItems odd items) (more : List Bytes) :
    (pairs (pending odd ++ (tokens items ++ more))).find? (fun pair => pair.1 == name) =
      ((named items).find? fun pair => pair.1 == name).or
        ((pairs (pending (oddAfter odd items) ++ more)).find? fun pair => pair.1 == name) := by
  induction items generalizing odd with
  | nil => rfl
  | cons item items ih =>
    cases item with
    | none =>
      cases odd with
      | false => exact ih paired
      | true =>
        refine (find?_cons_of_neg fun blank => ?_).trans (ih paired)
        exact some' (beq_iff_eq.mp blank).symm
    | some pair =>
      obtain ⟨rfl, paired⟩ := paired
      have later := ih paired
      change (pair :: pairs (tokens items ++ more)).find? _ =
        ((pair :: named items).find? _).or _
      rw [find?_cons, find?_cons]
      split
      · rfl
      · exact later

/-! ### Parsing -/

theorem slashed_split (tokens : List Bytes) :
    slashed (tokens.flatMap (·.splitOn 92)) = slashed tokens := by
  induction tokens with
  | nil => rfl
  | cons token tokens ih =>
    have here : slashed (token.splitOn 92) = 92 :: token := by
      rw [← join_slashed (splitOn_ne_nil _ _), strjoinv, intercalate_splitOn]
      rfl
    rw [flatMap_cons, slashed_append, here, ih, slashed_cons]

theorem parse_split {tokens : List Bytes} (some' : tokens ≠ []) :
    msimParse (slashed tokens) =
      (pairs (tokens.flatMap (·.splitOn 92))).map fun pair => rawElement pair.1 pair.2 := by
  rw [← slashed_split tokens, parse_slashed]
  · obtain ⟨token, rest, rfl⟩ := exists_cons_of_ne_nil some'
    rw [flatMap_cons]
    exact append_ne_nil_of_left_ne_nil (splitOn_ne_nil _ _) _
  · intro part member
    obtain ⟨token, _, inside⟩ := mem_flatMap.mp member
    exact mem_splitOn inside

theorem splitOn_first (separator : UInt8) (whole : Bytes) :
    ∃ more, whole.splitOn separator = whole.takeWhile (· != separator) :: more := by
  induction whole with
  | nil => exact ⟨[], splitOn_nil separator⟩
  | cons byte whole ih =>
    rw [splitOn_cons_eq_if_modifyHead]
    by_cases same : byte == separator
    · rw [if_pos same, takeWhile_cons_of_neg]
      · exact ⟨_, rfl⟩
      · exact fun other => bne_iff_ne.mp other (beq_iff_eq.mp same)
    · obtain ⟨more, rest⟩ := ih
      rw [if_neg same, rest, takeWhile_cons_of_pos (p := (· != separator))]
      · exact ⟨more, rfl⟩
      · exact bne_iff_ne.mpr fun equal => same (beq_iff_eq.mpr equal)

theorem flatMap_plain {tokens : List Bytes} (plain : ∀ token ∈ tokens, 92 ∉ token) :
    tokens.flatMap (·.splitOn 92) = tokens := by
  induction tokens with
  | nil => rfl
  | cons token tokens ih =>
    rw [forall_mem_cons] at plain
    rw [flatMap_cons, splitOn_eq_singleton plain.1, ih plain.2]
    rfl

theorem get_raw {pairs : List (Bytes × Bytes)} (clean : ∀ pair ∈ pairs, 0 ∉ pair.1) (name : Bytes) :
    msimMsgGet (pairs.map fun pair => rawElement pair.1 pair.2) name =
      (pairs.find? fun pair => pair.1 == name).map fun pair => rawElement pair.1 pair.2 := by
  induction pairs with
  | nil => rfl
  | cons pair pairs ih =>
    rw [forall_mem_cons] at clean
    have same : (rawElement pair.1 pair.2).name.val = pair.1 := cString_clean clean.1
    have later := ih clean.2
    rw [msimMsgGet] at later
    rw [msimMsgGet, map_cons, find?_cons, find?_cons, same]
    split
    · rfl
    · exact later

theorem mem_split_noNul {tokens : List Bytes} (clean : ∀ token ∈ tokens, 0 ∉ token)
    (member : pair ∈ pairs (tokens.flatMap (·.splitOn 92))) : 0 ∉ pair.1 ∧ 0 ∉ pair.2 := by
  have parts : ∀ part ∈ tokens.flatMap (·.splitOn 92), 0 ∉ part := by
    intro part among nul
    obtain ⟨token, here, inside⟩ := mem_flatMap.mp among
    have whole : 0 ∈ List.intercalate [92] (token.splitOn 92) := mem_intercalate inside nul
    rw [intercalate_splitOn] at whole
    exact clean token here whole
  exact ⟨parts _ (mem_pairs member).1, parts _ (mem_pairs member).2⟩

variable {base64}

theorem tokens_noNul (msg : MsimMessage) : ∀ token ∈ tokens (items base64 msg), 0 ∉ token := by
  intro token member
  obtain rfl | ⟨pair, among, rfl | rfl⟩ := mem_tokens member
  · exact not_mem_nil
  · exact (named_noNul base64 among).1
  · exact (named_noNul base64 among).2

theorem cut_parsed (encodable : Encodable msg) (some' : msg ≠ []) :
    msimParse (cut base64 msg) =
      (pairs ((tokens (msg.map (itemOf base64))).flatMap (·.splitOn 92))).map
        fun pair => rawElement pair.1 pair.2 := by
  have shown := items_shown base64 fun element member => (encodable.names element member).2.2
  have some'' : tokens (msg.map (itemOf base64)) ≠ [] := by
    obtain ⟨element, rest, rfl⟩ := exists_cons_of_ne_nil some'
    rw [map_cons, tokens, flatMap_cons]
    refine append_ne_nil_of_left_ne_nil ?_ _
    cases itemOf base64 element <;> exact cons_ne_nil _ _
  have body' : body (msg.map (itemOf base64)) = tokens (msg.map (itemOf base64)) :=
    if_neg fun empty => some' (map_eq_nil_iff.mp empty)
  rw [cut, text_slashed base64 some', shown, body', length_append, Nat.add_sub_cancel,
    take_left' rfl, parse_split some'']

theorem cut_found (encodable : Encodable msg) (some' : msg ≠ []) (name : Bytes) :
    msimMsgGet (msimParse (cut base64 msg)) name =
      ((pairs ((tokens (msg.map (itemOf base64))).flatMap (·.splitOn 92))).find?
        fun pair => pair.1 == name).map fun pair => rawElement pair.1 pair.2 := by
  have shown := items_shown base64 fun element member => (encodable.names element member).2.2
  have clean := @tokens_noNul base64 msg
  rw [shown] at clean
  rw [cut_parsed encodable some']
  exact get_raw (fun pair member => (mem_split_noNul clean member).1) name

theorem found_plain (encodable : Encodable msg) (paired : Paired false msg)
    (plain : ∀ pair ∈ named (msg.map (itemOf base64)), 92 ∉ pair.2) (member : element ∈ msg) :
    msimMsgGet (msimParse (cut base64 msg)) element.name.val =
      (itemOf base64 element).map fun pair => rawElement pair.1 pair.2 := by
  have shown := items_shown base64 fun element member => (encodable.names element member).2.2
  have keys : PlainKeys msg := fun element member => (encodable.names element member).2.1
  rw [← shown] at plain
  have tokens' := tokens_plain keys plain
  rw [shown] at tokens'
  have looked := find_pairs (encodable.names element member).1 (paired_items base64 paired) []
  have rest : pairs (pending (oddAfter false (msg.map (itemOf base64))) ++ []) = [] := by
    cases oddAfter false (msg.map (itemOf base64)) <;> rfl
  rw [rest, find?_nil, or_none, append_nil, named_find base64 encodable.distinct
    member] at looked
  rw [cut_found encodable (ne_nil_of_mem member), flatMap_plain tokens']
  exact congrArg _ looked

/-- An element is found up to the first backslash of its value, where no value in front of
it has one. -/
theorem found_first (encodable : Encodable msg) (paired : Paired false msg)
    {front back : List Item} {name value : Bytes}
    (split : msg.map (itemOf base64) = front ++ some (name, value) :: back)
    (plain : ∀ pair ∈ named front, 92 ∉ pair.2)
    (new : (named front).find? (fun pair => pair.1 == name) = none) (some' : name ≠ [])
    (keys : ∀ pair ∈ named (msg.map (itemOf base64)), 92 ∉ pair.1) :
    msimMsgGet (msimParse (cut base64 msg)) name =
      some (rawElement name (value.takeWhile (· != 92))) := by
  have some'' : msg ≠ [] := by
    rintro rfl
    exact cons_ne_nil _ _ (append_eq_nil_iff.mp split.symm).2
  have paired' := paired_items base64 paired
  rw [split] at paired'
  obtain ⟨even, closed⟩ := pairedItems_middle paired'
  have inFront : ∀ pair ∈ named front, 92 ∉ pair.1 := by
    intro pair member
    refine keys pair ?_
    rw [split]
    obtain ⟨item, among, same⟩ := mem_filterMap.mp member
    exact mem_filterMap.mpr ⟨item, mem_append_left _ among, same⟩
  have key : 92 ∉ name := by
    refine keys (name, value) ?_
    rw [split]
    exact mem_filterMap.mpr
      ⟨some (name, value), mem_append_right _ mem_cons_self, rfl⟩
  have tokens' : ∀ token ∈ tokens front, 92 ∉ token := by
    intro token member
    obtain rfl | ⟨pair, among, rfl | rfl⟩ := mem_tokens member
    · exact not_mem_nil
    · exact inFront pair among
    · exact plain pair among
  obtain ⟨more, first⟩ := splitOn_first 92 value
  have behind : (tokens (some (name, value) :: back)).flatMap (·.splitOn 92) =
      name :: value.takeWhile (· != 92) :: (more ++ (tokens back).flatMap (·.splitOn 92)) := by
    change (name :: value :: tokens back).flatMap _ = _
    rw [flatMap_cons, flatMap_cons, splitOn_eq_singleton key, first]
    rfl
  have looked := find_pairs some' even
    ((tokens (some (name, value) :: back)).flatMap (·.splitOn 92))
  rw [closed, new, none_or, behind] at looked
  have whole : (tokens (msg.map (itemOf base64))).flatMap (·.splitOn 92) =
      tokens front ++ (tokens (some (name, value) :: back)).flatMap (·.splitOn 92) := by
    rw [split, tokens, flatMap_append, flatMap_append, ← tokens, ← tokens,
      flatMap_plain tokens']
  rw [cut_found encodable some'', whole, behind]
  have here : (pairs (name :: value.takeWhile (· != 92) ::
      (more ++ (tokens back).flatMap (·.splitOn 92)))).find? (fun pair => pair.1 == name) =
        some (name, value.takeWhile (· != 92)) := find?_cons_of_pos (beq_iff_eq.mpr rfl)
  exact congrArg (Option.map fun pair => rawElement pair.1 pair.2) (looked.trans here)

/-! ### Values -/

def ReadsAs (base64 : Base64) (data : MsimData) (text : Bytes) : Prop :=
  match data with
  | .integer value => UInt32.ofInt (atoi text) = value
  | .raw value => text = value.val
  | .string value => msimUnescape text = value.val
  | .binary bytes => base64.decode text = some bytes
  | .boolean value => value = true
  | .dictionary elements =>
    (msimMsgDictionaryParse text).map nameAndString = elements.map nameAndString
  | .list items => (msimMsgListParse text).map msimMsgGetStringFromElement =
      items.map fun item => some item.val

theorem restores_found {parsed : MsimMessage} {text : Bytes} (clean : 0 ∉ text)
    (found : msimMsgGet parsed element.name.val = some (rawElement element.name.val text)) :
    Restores base64 parsed element ↔ ReadsAs base64 element.data text := by
  have same : cString text = text := cString_clean clean
  obtain ⟨name, data⟩ := element
  change msimMsgGet parsed name.val = some (rawElement name.val text) at found
  cases data with
  | integer value =>
    change msimMsgGetInteger parsed name.val = value ↔ UInt32.ofInt (atoi text) = value
    rw [msimMsgGetInteger, found]
    change UInt32.ofInt (atoi (cString text)) = value ↔ _
    rw [same]
  | raw value =>
    change (msimMsgGet parsed name.val).map contents = some (name.val, value.val) ↔ text = value.val
    rw [found, map_some, Option.some.injEq]
    change (cString name.val, cString text) = _ ↔ _
    rw [same, cString_clean name.property, Prod.mk.injEq]
    exact ⟨fun both => both.2, fun right => ⟨rfl, right⟩⟩
  | string value =>
    change msimMsgGetString parsed name.val = some value.val ↔ msimUnescape text = value.val
    rw [msimMsgGetString, found]
    change some (msimUnescape (cString text)) = _ ↔ _
    rw [same, Option.some.injEq]
  | binary bytes =>
    change msimMsgGetBinary base64 parsed name.val = some bytes ↔ base64.decode text = some bytes
    rw [msimMsgGetBinary, found]
    change base64.decode (cString text) = _ ↔ _
    rw [same]
  | boolean value =>
    change (msimMsgGet parsed name.val).isSome = value ↔ value = true
    rw [found]
    exact eq_comm
  | dictionary elements =>
    change (∃ dictionary, msimMsgGetDictionary parsed name.val = some dictionary ∧ _) ↔
      (msimMsgDictionaryParse text).map _ = _
    rw [msimMsgGetDictionary, found]
    change (∃ dictionary, some (msimMsgDictionaryParse (cString text)) = some dictionary ∧ _) ↔ _
    rw [same]
    constructor
    · rintro ⟨_, parsed', equal⟩
      cases parsed'
      exact equal
    · exact fun equal => ⟨_, rfl, equal⟩
  | list items =>
    change (∃ elements, msimMsgGetList parsed name.val = some (.elements elements) ∧ _) ↔
      (msimMsgListParse text).map _ = _
    rw [msimMsgGetList, found]
    change (∃ elements, some (MsimList.elements (msimMsgListParse (cString text))) =
      some (.elements elements) ∧ _) ↔ _
    rw [same]
    constructor
    · rintro ⟨_, equal, texts⟩
      cases equal
      exact texts
    · exact fun texts => ⟨_, rfl, texts⟩

theorem wire_plain (codes : base64.Codes) {data : MsimData} (codable : Codable data)
    (names : ∀ elements, data = .dictionary elements →
      ∀ element ∈ elements, 92 ∉ element.name.val) : 92 ∉ wire base64 data := by
  cases data with
  | integer value => exact printInt_plain _
  | raw text => exact codable.elim
  | string text => exact fun member => (mem_msimEscape member).1 rfl
  | binary bytes => exact codes.encode_plain bytes
  | boolean value =>
    rw [wire, msimMsgPackElementData]
    cases value <;> decide
  | dictionary elements =>
    rw [wire, msimMsgPackElementData, if_neg (by
      rw [isEmpty_eq_false_iff.mpr codable.1]
      exact Bool.false_ne_true), getD_some,
      packDict_entries base64 fun element member => (codable.2 element member).1]
    intro member
    rcases mem_strjoinv member with same | ⟨string, among, inside⟩
    · exact absurd same (by decide)
    · obtain ⟨element, visible, rfl⟩ := List.mem_map.mp among
      rw [entry, mem_append, mem_append, mem_singleton] at inside
      rcases inside with (inside | same) | inside
      · exact names elements rfl element (mem_filter.mp visible).1 inside
      · exact absurd same (by decide)
      · exact (mem_msimEscape inside).1 rfl
  | list items =>
    intro member
    rcases mem_strjoinv member with same | ⟨string, among, inside⟩
    · exact absurd same (by decide)
    · obtain ⟨item, here, rfl⟩ := List.mem_map.mp among
      exact (codable.2 item here).2.2 inside

theorem dictionary_names {text : Bytes} {elements : List (MsimMessageElement MsimData)}
    (strings : ∀ element ∈ elements, isString element)
    (reads : (msimMsgDictionaryParse text).map nameAndString = elements.map nameAndString) :
    ∀ element ∈ elements, (∀ byte ∈ element.name.val, byte ∈ text) ∧ 28 ∉ element.name.val ∧
      28 ∉ stringOf element := by
  intro element member
  have among : nameAndString element ∈ (msimMsgDictionaryParse text).map nameAndString := by
    rw [reads]
    exact List.mem_map.mpr ⟨element, member, rfl⟩
  obtain ⟨parsed, here, same⟩ := List.mem_map.mp among
  obtain ⟨apart, inside, string, read, apart'⟩ := mem_dictionaryParse here
  rw [same, nameAndString_string (strings element member)] at apart inside read
  cases read
  exact ⟨inside, apart, apart'⟩

theorem wire_reads_iff (codes : base64.Codes) {data : MsimData} (codable : Codable data)
    (true' : ∀ value, data = .boolean value → value = true) (plain : 92 ∉ wire base64 data) :
    ReadsAs base64 data (wire base64 data) ↔ Readable data := by
  cases data with
  | integer value => exact ⟨fun _ => trivial, fun _ => ofInt_atoi value⟩
  | raw text => exact codable.elim
  | string text => exact ⟨fun _ => trivial, fun _ => msimUnescape_escape text.val⟩
  | binary bytes => exact ⟨fun _ => trivial, fun _ => codes.decode_encode bytes⟩
  | boolean value => exact ⟨fun _ => trivial, fun _ => true' value rfl⟩
  | list items =>
    exact list_reads_iff codable.1 fun item member =>
      ⟨(codable.2 item member).1, (codable.2 item member).2.1⟩
  | dictionary elements =>
    have text : wire base64 (.dictionary elements) =
        strjoinv 28 (msimMsgPackDict base64 elements) := by
      rw [wire, msimMsgPackElementData, if_neg (by
        rw [isEmpty_eq_false_iff.mpr codable.1]
        exact Bool.false_ne_true), getD_some]
    rw [text] at plain ⊢
    change (msimMsgDictionaryParse _).map nameAndString = elements.map nameAndString ↔ _
    constructor
    · intro reads
      have names := dictionary_names (fun element member => (codable.2 element member).1) reads
      have parsed := dictionary_parsed base64 codable.2
        fun element member => (names element member).2
      rw [reads] at parsed
      have lengths := congrArg List.length parsed
      rw [length_map, length_map] at lengths
      have shown := length_filter_eq_length_iff.mp lengths.symm
      intro element member
      refine ⟨?_, fun slash => plain ((names element member).1 92 slash),
        (names element member).2⟩
      have visible := shown element member
      rw [Bool.not_eq_eq_eq_not, Bool.not_true] at visible
      exact visible
    · intro readable
      have parsed := dictionary_parsed base64 codable.2
        fun element member => (readable element member).2.2
      rw [parsed, filter_eq_self.mpr]
      intro element member
      rw [(readable element member).1]
      rfl

/-! ### Messages -/

theorem itemOf_some (item : itemOf base64 element = some pair) :
    pair.1 = element.name.val ∧ (∀ value, element.data = .boolean value → value = true) ∧
      (pair.2 = wire base64 element.data ∨ element.data = .boolean true ∧ pair.2 = []) := by
  refine ⟨itemOf_name base64 item, ?_⟩
  obtain ⟨name, data⟩ := element
  cases data with
  | boolean value =>
    cases value with
    | false => cases item
    | true =>
      cases item
      refine ⟨fun value same => ?_, Or.inr ⟨rfl, rfl⟩⟩
      cases same
      rfl
  | integer | raw | string | binary | dictionary | list =>
    cases item
    exact ⟨fun _ same => (nomatch same), Or.inl rfl⟩

theorem itemOf_none (item : itemOf base64 element = none) : element.data = .boolean false := by
  obtain ⟨name, data⟩ := element
  cases data with
  | boolean value =>
    cases value with
    | false => rfl
    | true => cases item
  | integer | raw | string | binary | dictionary | list => cases item

theorem plain_of_restores (codes : base64.Codes) (encodable : Encodable msg)
    (paired : Paired false msg)
    (restores : ∀ element ∈ msg, Restores base64 (msimParse (cut base64 msg)) element) :
    ∀ front back, msg = front ++ back →
      ∀ pair ∈ named (front.map (itemOf base64)), 92 ∉ pair.2 := by
  have shown := items_shown base64 fun element member => (encodable.names element member).2.2
  have keys : ∀ pair ∈ named (msg.map (itemOf base64)), 92 ∉ pair.1 := by
    intro pair member
    rw [← shown] at member
    exact named_plain (fun element among => (encodable.names element among).2.1) member
  intro front
  induction front using List.reverseRecOn with
  | nil => exact fun _ _ _ member => absurd member not_mem_nil
  | append_singleton front element ih =>
    intro back split pair member
    have earlier := ih (element :: back) (by rw [split, append_assoc]; rfl)
    rw [map_append, named, filterMap_append, mem_append] at member
    rcases member with before | here
    · exact earlier pair before
    · have item : itemOf base64 element = some pair := by
        cases one : itemOf base64 element with
        | none =>
          rw [map_cons, one] at here
          exact absurd here not_mem_nil
        | some other =>
          rw [map_cons, one] at here
          rw [mem_singleton.mp here]
      have among : element ∈ msg := by
        rw [split]
        exact mem_append_left _ (mem_append_right _ mem_cons_self)
      obtain ⟨name, true', value⟩ := itemOf_some item
      rcases value with value | ⟨_, blank⟩
      · rw [value]
        refine wire_plain codes (encodable.codable element among) fun elements data => ?_
        have apart : ∀ other ∈ front, other.name.val ≠ element.name.val := by
          intro other inside same
          have distinct := encodable.distinct
          rw [split, append_assoc, map_append, nodup_append] at distinct
          exact distinct.2.2 _ (List.mem_map.mpr ⟨other, inside, rfl⟩) _
            (List.mem_map.mpr ⟨element, mem_append_left _ mem_cons_self, rfl⟩) same
        have new : (named (front.map (itemOf base64))).find?
            (fun pair => pair.1 == element.name.val) = none := by
          refine find?_eq_none.mpr fun other inside same => ?_
          obtain ⟨item', within, same'⟩ := mem_filterMap.mp inside
          obtain ⟨owner, owned, item''⟩ := List.mem_map.mp within
          cases same'
          exact apart owner owned
            ((itemOf_name base64 item'').symm.trans (beq_iff_eq.mp same))
        have place : msg.map (itemOf base64) = front.map (itemOf base64) ++
            some (element.name.val, pair.2) :: back.map (itemOf base64) := by
          rw [split, append_assoc, map_append, map_append, map_cons, item,
            ← name]
          rfl
        have found := found_first encodable paired place earlier new
          (encodable.names element among).1 keys
        have clean : 0 ∉ pair.2.takeWhile (· != 92) := by
          intro nul
          have noNul := @named_noNul base64 msg pair (by
            rw [shown]
            refine mem_filterMap.mpr ⟨some pair, ?_, rfl⟩
            exact List.mem_map.mpr ⟨element, among, item⟩)
          exact noNul.2 (( takeWhile_prefix _).subset nul)
        have reads := (restores_found clean found).mp (restores element among)
        rw [data] at reads
        have codable := encodable.codable element among
        rw [data] at codable
        intro other inside slash
        have bytes := (dictionary_names (fun element member => (codable.2 element member).1) reads
          other inside).1 92 slash
        exact absurd (@mem_takeWhile_imp _ (· != 92) pair.2 92 bytes) (by decide)
      · rw [blank]
        exact not_mem_nil

/-- Exactly the readable values are given back, where elements that pack to nothing come in
twos before the others. -/
theorem msimParse_pack_iff (base64 : Base64) (codes : base64.Codes) (msg : MsimMessage)
    (encodable : Encodable msg) (paired : Paired false msg) :
    (∀ element ∈ msg, Restores base64 (msimParse (cut base64 msg)) element) ↔
      ∀ element ∈ msg, Readable element.data := by
  have step (plain : ∀ pair ∈ named (msg.map (itemOf base64)), 92 ∉ pair.2)
      (element : MsimMessageElement MsimData) (member : element ∈ msg) :
      Restores base64 (msimParse (cut base64 msg)) element ↔ Readable element.data := by
    have found := found_plain encodable paired plain member
    cases item : itemOf base64 element with
    | none =>
      have data := itemOf_none item
      rw [item] at found
      rw [Restores, data]
      change (msimMsgGet _ _).isSome = false ↔ True
      rw [found]
      exact ⟨fun _ => trivial, fun _ => rfl⟩
    | some pair =>
      obtain ⟨name, true', value⟩ := itemOf_some item
      have inside : pair ∈ named (msg.map (itemOf base64)) :=
        mem_filterMap.mpr ⟨some pair, List.mem_map.mpr ⟨element, member, item⟩, rfl⟩
      have shown := items_shown base64 fun element member => (encodable.names element member).2.2
      have clean := named_noNul base64 (shown ▸ inside)
      rw [item, map_some, name] at found
      rw [restores_found clean.2 found]
      rcases value with value | ⟨data, _⟩
      · have plain' := plain pair inside
        rw [value] at plain' ⊢
        exact wire_reads_iff codes (encodable.codable element member) true' plain'
      · rw [data]
        exact ⟨fun _ => trivial, fun _ => rfl⟩
  constructor
  · intro restores element member
    have plain := plain_of_restores codes encodable paired restores msg [] (append_nil msg).symm
    exact (step plain element member).mp (restores element member)
  · intro readable element member
    refine (step ?_ element member).mpr (readable element member)
    intro pair inside
    obtain ⟨item, among, rfl⟩ := mem_filterMap.mp inside
    obtain ⟨owner, owned, item⟩ := List.mem_map.mp among
    rcases (itemOf_some item).2.2 with value | ⟨_, blank⟩
    · rw [value]
      refine wire_plain codes (encodable.codable owner owned) fun elements data other within => ?_
      have condition := readable owner owned
      rw [data] at condition
      exact (condition other within).2.1
    · rw [blank]
      exact not_mem_nil

/-- An element of every type, the strings with what the separators and codes are made of. -/
def profile : MsimMessage :=
  [⟨strdup (ascii "cmd"), .string (strdup (ascii "/1|\\="))⟩, ⟨strdup (ascii "on"), .boolean true⟩,
    ⟨strdup (ascii "keys"), .list [strdup [], strdup (ascii "a")]⟩,
    ⟨strdup (ascii "body"),
      .dictionary [⟨strdup (ascii "UserName"), .string (strdup (ascii "a=b\\"))⟩]⟩,
    ⟨strdup (ascii "rid"), .integer 4294967295⟩, ⟨strdup (ascii "image"), .binary [0, 92, 255]⟩,
    ⟨strdup (ascii "off"), .boolean false⟩]

theorem profile_restored : Encodable profile ∧ ∀ element ∈ profile,
    Restores base64Standard (msimParse (cut base64Standard profile)) element := by
  have string : isString ⟨strdup (ascii "UserName"), .string (strdup (ascii "a=b\\"))⟩ := ⟨_, rfl⟩
  have encodable : Encodable profile := by
    refine ⟨by decide, by decide, ?_⟩
    simp only [profile, forall_mem_cons, not_mem_nil, false_implies, implies_true, Codable,
      and_true, true_and]
    exact ⟨⟨by decide, by decide⟩, cons_ne_nil _ _, string, by decide⟩
  refine ⟨encodable, (msimParse_pack_iff base64Standard base64Standard_codes profile encodable ?_).mpr ?_⟩
  · exact ⟨rfl, rfl, rfl, rfl, rfl, rfl, trivial⟩
  · simp only [profile, forall_mem_cons, not_mem_nil, false_implies, implies_true, Readable,
      and_true, true_and]
    decide

def shifted : MsimMessage :=
  [⟨strdup (ascii "off"), .boolean false⟩, ⟨strdup (ascii "cmd"), .string (strdup (ascii "1"))⟩]

theorem shifted_not_restored :
    ¬∀ msg : MsimMessage, Encodable msg → ∀ element ∈ msg,
      Restores base64Standard (msimParse (cut base64Standard msg)) element := by
  intro restores
  have encodable : Encodable shifted := by
    refine ⟨by decide, by decide, ?_⟩
    simp only [shifted, forall_mem_cons, not_mem_nil, false_implies, implies_true, Codable,
      and_true]
  have given := restores shifted encodable ⟨strdup (ascii "cmd"), .string (strdup (ascii "1"))⟩
    (mem_cons_of_mem _ mem_cons_self)
  change msimMsgGetString _ (ascii "cmd") = some (ascii "1") at given
  have missing : msimMsgGetString (msimParse (cut base64Standard shifted)) (ascii "cmd") = none := by
    decide +kernel
  rw [missing] at given
  cases given

end Purple.Myspace
