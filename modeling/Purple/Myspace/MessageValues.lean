/-
Reading back the values of a message.

An escaped text has no backslash and is unescaped to itself.  A list loses itself only
when it is one empty item, and a dictionary when a name is hidden, or when the byte that
separates its items occurs in it.
-/

import Purple.Myspace.MessageFraming

namespace Purple.Myspace

open List CString Decimal

variable (base64 : Base64)

variable {byte : UInt8} {element : MsimMessageElement MsimData}
  {elements : List (MsimMessageElement MsimData)}

theorem ofInt_atoi (value : UInt32) :
    UInt32.ofInt (atoi (printInt value.toInt32.toInt)) = value := by
  have upper := value.toInt32.toInt_lt
  have lower := value.toInt32.le_toInt
  have small := value.toNat_lt
  have signed : value.toInt32.toInt = (value.toNat : Int).bmod (2 ^ 32) :=
    BitVec.toInt_eq_toNat_bmod _
  rw [atoi, strtol_printInt (by omega) (by omega)]
  apply UInt32.toNat_inj.1
  rw [UInt32.ofInt, signed, UInt32.toNat_ofNat']
  change (((value.toNat : Int).bmod (2 ^ 32)).bmod (2 ^ 32) % ((2 ^ 32 : Nat) : Int)).toNat % _ = _
  rw [Int.bmod_emod, Int.bmod_emod]
  omega

theorem printInt_plain (value : Int) : 92 ∉ printInt value :=
  not_mem_printInt (by decide) (by decide) value

theorem msimEscape_cons (byte : UInt8) (rest : Bytes) :
    msimEscape (byte :: rest) =
      (if byte = 47 then [47, 49] else if byte = 92 then [47, 50] else [byte]) ++
        msimEscape rest := by
  rw [msimEscape, flatMap_cons, ← msimEscape]
  congr 1
  by_cases slash : byte = 47
  · rw [if_pos slash, slash]
    rfl
  · rw [if_neg slash]
    by_cases backslash : byte = 92
    · rw [if_pos backslash, backslash]
      rfl
    · have none' : msimEscapeReplacements.find? (fun replacement => replacement.2 == byte) = none := by
        refine find?_eq_none.mpr fun replacement member same => ?_
        rcases mem_cons.mp member with rfl | member
        · exact slash (beq_iff_eq.mp same).symm
        · rcases mem_singleton.mp member with rfl
          exact backslash (beq_iff_eq.mp same).symm
      rw [if_neg backslash, none']
      rfl

theorem msimUnescape_other (other : byte ≠ 47) (rest : Bytes) :
    msimUnescape (byte :: rest) = byte :: msimUnescape rest := by
  cases rest with
  | nil => rfl
  | cons next rest =>
    have none' : msimEscapeReplacements.find? (fun replacement => replacement.1 == [byte, next]) =
        none := by
      refine find?_eq_none.mpr fun replacement member same => ?_
      rcases mem_cons.mp member with rfl | member
      · exact other (List.cons.inj (beq_iff_eq.mp same)).1.symm
      · rcases mem_singleton.mp member with rfl
        exact other (List.cons.inj (beq_iff_eq.mp same)).1.symm
    rw [msimUnescape, none']

theorem msimUnescape_escape (text : Bytes) : msimUnescape (msimEscape text) = text := by
  induction text with
  | nil => rfl
  | cons byte text ih =>
    rw [msimEscape_cons]
    by_cases slash : byte = 47
    · rw [if_pos slash, slash]
      change 47 :: msimUnescape (msimEscape text) = _
      rw [ih]
    · rw [if_neg slash]
      by_cases backslash : byte = 92
      · rw [if_pos backslash, backslash]
        change 92 :: msimUnescape (msimEscape text) = _
        rw [ih]
      · rw [if_neg backslash, singleton_append, msimUnescape_other slash, ih]

theorem msimUnescape_plain {text : Bytes} (plain : 47 ∉ text) : msimUnescape text = text := by
  induction text with
  | nil => rfl
  | cons byte text ih =>
    rw [mem_cons, not_or] at plain
    rw [msimUnescape_other (Ne.symm plain.1), ih plain.2]

theorem mem_msimEscape {text : Bytes} (member : byte ∈ msimEscape text) :
    byte ≠ 92 ∧ (byte ∈ text ∨ byte = 47 ∨ byte = 49 ∨ byte = 50) := by
  induction text with
  | nil => exact absurd member not_mem_nil
  | cons first text ih =>
    rw [msimEscape_cons, mem_append] at member
    rcases member with here | later
    · split at here
      · simp only [mem_cons, not_mem_nil, or_false] at here
        rcases here with rfl | rfl
        · exact ⟨by decide, Or.inr (Or.inl rfl)⟩
        · exact ⟨by decide, Or.inr (Or.inr (Or.inl rfl))⟩
      · split at here
        · simp only [mem_cons, not_mem_nil, or_false] at here
          rcases here with rfl | rfl
          · exact ⟨by decide, Or.inr (Or.inl rfl)⟩
          · exact ⟨by decide, Or.inr (Or.inr (Or.inr rfl))⟩
        · rename_i other
          rw [mem_singleton.mp here]
          exact ⟨other, Or.inl mem_cons_self⟩
    · obtain ⟨plain, among⟩ := ih later
      exact ⟨plain, among.imp_left (mem_cons_of_mem _)⟩

theorem mem_msimUnescape {text : Bytes} (member : byte ∈ msimUnescape text) :
    byte ∈ text ∨ byte = 47 ∨ byte = 92 := by
  induction text using msimUnescape.induct with
  | case1 => exact Or.inl member
  | case2 => exact Or.inl member
  | case3 first next rest replacement found ih =>
    rw [msimUnescape, found] at member
    rcases mem_cons.mp member with rfl | later
    · have texts : ∀ replacement ∈ msimEscapeReplacements,
          replacement.2 = 47 ∨ replacement.2 = 92 := by decide
      exact Or.inr (texts replacement (mem_of_find?_eq_some found))
    · exact (ih later).imp_left fun inside =>
        mem_cons_of_mem _ (mem_cons_of_mem _ inside)
  | case4 first next rest none' ih =>
    rw [msimUnescape, none'] at member
    rcases mem_cons.mp member with rfl | later
    · exact Or.inl mem_cons_self
    · exact (ih later).imp_left (mem_cons_of_mem _)

theorem list_texts (raw : Bytes) :
    (msimMsgListParse raw).map msimMsgGetStringFromElement =
      (strsplit 124 raw).map fun item => some (msimUnescape (cString item)) := by
  apply ext_getElem?
  intro index
  rw [msimMsgListParse, getElem?_map, getElem?_mapIdx, getElem?_map, Option.map_map]
  rfl

theorem list_reads_iff {items : List Text} (some' : items ≠ [])
    (plain : ∀ item ∈ items, 124 ∉ item.val ∧ 47 ∉ item.val) :
    (msimMsgListParse (strjoinv 124 (items.map (·.val)))).map msimMsgGetStringFromElement =
      items.map (fun item => some item.val) ↔ items.map (·.val) ≠ [[]] := by
  have some'' : items.map (·.val) ≠ [] := fun empty => some' (map_eq_nil_iff.mp empty)
  have bars : ∀ string ∈ items.map (·.val), 124 ∉ string := by
    intro string member
    obtain ⟨item, among, rfl⟩ := List.mem_map.mp member
    exact (plain item among).1
  have whole : (items.map (·.val)).map (fun item => some (msimUnescape (cString item))) =
      items.map (fun item => some item.val) := by
    rw [List.map_map]
    refine map_congr_left fun item member => ?_
    change some (msimUnescape (cString item.val)) = some item.val
    rw [cString_clean item.property, msimUnescape_plain (plain item member).2]
  rw [list_texts, strsplit_strjoinv some'' bars]
  by_cases single : items.map (·.val) = [[]]
  · rw [if_pos single]
    refine ⟨fun same => ?_, fun other => absurd single other⟩
    exact absurd (map_eq_nil_iff.mp same.symm) some'
  · rw [if_neg single]
    exact ⟨fun _ => single, fun _ => whole⟩

def stringOf (element : MsimMessageElement MsimData) : Bytes :=
  match element.data with
  | .string text => text.val
  | _ => []

def isString (element : MsimMessageElement MsimData) : Prop :=
  ∃ text, element.data = .string text

def entry (element : MsimMessageElement MsimData) : Bytes :=
  element.name.val ++ [61] ++ msimEscape (stringOf element)

def nameAndString (element : MsimMessageElement MsimData) : Bytes × Option Bytes :=
  (element.name.val, msimMsgGetStringFromElement element)

theorem nameAndString_string (string : isString element) :
    nameAndString element = (element.name.val, some (stringOf element)) := by
  obtain ⟨name, data⟩ := element
  obtain ⟨text, same⟩ := string
  change data = _ at same
  rw [same]
  rfl

theorem packDict_entries (strings : ∀ element ∈ elements, isString element) :
    msimMsgPackDict base64 elements =
      (elements.filter fun element => !hidden element.name).map entry := by
  induction elements with
  | nil => rfl
  | cons element elements ih =>
    rw [forall_mem_cons] at strings
    obtain ⟨name, data⟩ := element
    obtain ⟨text, same⟩ := strings.1
    change data = _ at same
    rw [msimMsgPackDict, ih strings.2, filter_cons, msimMsgPackElementDict, same]
    cases hidden name <;> rfl

theorem takeWhile_entry {name value : Bytes} (plain : 61 ∉ name) :
    (name ++ [61] ++ value).takeWhile (· != 61) = name ∧
      (name ++ [61] ++ value).dropWhile (· != 61) = 61 :: value := by
  have inside : ∀ byte ∈ name, (byte != 61) = true := fun byte member =>
    bne_iff_ne.mpr fun same => plain (same ▸ member)
  rw [append_assoc, takeWhile_append_of_pos inside, dropWhile_append_of_pos inside]
  exact ⟨append_nil _, rfl⟩

theorem parseItems_entries
    (strings : ∀ element ∈ elements, isString element ∧ 61 ∉ element.name.val) :
    (parseItems (elements.map entry)).map nameAndString = elements.map nameAndString := by
  induction elements with
  | nil => rfl
  | cons element elements ih =>
    rw [forall_mem_cons] at strings
    obtain ⟨name, value⟩ :=
      @takeWhile_entry element.name.val (msimEscape (stringOf element)) strings.1.2
    have clean : 0 ∉ msimEscape (stringOf element) := by
      obtain ⟨text, same⟩ := strings.1.1
      rw [stringOf, same]
      exact msimEscape_noNul text
    rw [map_cons, parseItems, entry, value, name]
    dsimp only
    rw [map_cons, map_cons, ih strings.2, nameAndString_string strings.1.1]
    congr 1
    change (cString element.name.val, some (msimUnescape (cString _))) = _
    rw [cString_clean element.name.property, cString_clean clean, msimUnescape_escape]

theorem dictionary_parsed
    (strings : ∀ element ∈ elements, isString element ∧ 61 ∉ element.name.val)
    (apart : ∀ element ∈ elements, 28 ∉ element.name.val ∧ 28 ∉ stringOf element) :
    (msimMsgDictionaryParse (strjoinv 28 (msimMsgPackDict base64 elements))).map nameAndString =
      (elements.filter fun element => !hidden element.name).map nameAndString := by
  rw [packDict_entries base64 fun element member => (strings element member).1,
    msimMsgDictionaryParse]
  have among : ∀ element ∈ elements.filter (fun element => !hidden element.name),
      element ∈ elements := fun element member => (mem_filter.mp member).1
  generalize elements.filter (fun element => !hidden element.name) = visible at among
  cases visible with
  | nil => rfl
  | cons first rest =>
    have separate : ∀ string ∈ (first :: rest).map entry, 28 ∉ string := by
      intro string member inside
      obtain ⟨element, here, rfl⟩ := List.mem_map.mp member
      have both := apart element (among element here)
      rw [entry, mem_append, mem_append, mem_singleton] at inside
      rcases inside with (inside | same) | inside
      · exact both.1 inside
      · exact absurd same (by decide)
      · rcases (mem_msimEscape inside).2 with inside | same | same | same
        · exact both.2 inside
        · exact absurd same (by decide)
        · exact absurd same (by decide)
        · exact absurd same (by decide)
    have notSingle : (first :: rest).map entry ≠ [[]] := by
      intro same
      have blank := (List.cons.inj same).1
      rw [entry, append_eq_nil_iff, append_eq_nil_iff] at blank
      exact cons_ne_nil _ _ blank.1.2
    have some' : (first :: rest).map entry ≠ [] := cons_ne_nil _ _
    rw [strsplit_strjoinv some' separate, if_neg notSingle]
    exact parseItems_entries fun element member => strings element (among element member)

theorem mem_parseItems {items : List Bytes} (member : element ∈ parseItems items) :
    ∃ item ∈ items, ∃ key value, element = rawElement key value ∧
      (∀ byte ∈ key, byte ∈ item) ∧ ∀ byte ∈ value, byte ∈ item := by
  induction items with
  | nil => exact absurd member not_mem_nil
  | cons item items ih =>
    rw [parseItems] at member
    split at member
    · exact absurd member not_mem_nil
    · rename_i equals value split'
      rcases mem_cons.mp member with rfl | later
      · refine ⟨item, mem_cons_self, _, value, rfl, ?_, ?_⟩
        · exact fun byte inside => ( takeWhile_prefix _).subset inside
        · intro byte inside
          refine (dropWhile_suffix (· != 61)).subset ?_
          rw [split']
          exact mem_cons_of_mem _ inside
      · obtain ⟨other, among, rest⟩ := ih later
        exact ⟨other, mem_cons_of_mem _ among, rest⟩

theorem mem_intercalate {separator string : Bytes} {strings : List Bytes}
    (among : string ∈ strings) (inside : byte ∈ string) :
    byte ∈ separator.intercalate strings := by
  induction strings with
  | nil => exact absurd among not_mem_nil
  | cons first rest ih =>
    cases rest with
    | nil =>
      rw [intercalate_singleton, ← mem_singleton.mp among]
      exact inside
    | cons second rest =>
      rw [intercalate_cons_cons]
      rcases mem_cons.mp among with rfl | later
      · exact mem_append_left _ (mem_append_left _ inside)
      · exact mem_append_right _ (ih later)

theorem mem_dictionaryParse {raw : Bytes} (member : element ∈ msimMsgDictionaryParse raw) :
    28 ∉ (nameAndString element).1 ∧ (∀ byte ∈ (nameAndString element).1, byte ∈ raw) ∧
      ∃ text, (nameAndString element).2 = some text ∧ 28 ∉ text := by
  obtain ⟨item, among, key, value, rfl, inKey, inValue⟩ := mem_parseItems member
  have apart := mem_strsplit among
  have inside : ∀ byte ∈ item, byte ∈ raw := by
    intro byte member
    rw [strsplit] at among
    split at among
    · exact absurd among not_mem_nil
    · have whole : List.intercalate [28] (raw.splitOn 28) = raw := intercalate_splitOn 28
      rw [← whole]
      exact mem_intercalate among member
  refine ⟨fun here => apart (inKey _ (cString_sub here)),
    fun byte here => inside byte (inKey _ (cString_sub here)), _, rfl, fun here => ?_⟩
  rcases mem_msimUnescape here with here | same | same
  · exact apart (inValue _ (cString_sub here))
  · exact absurd same (by decide)
  · exact absurd same (by decide)

end Purple.Myspace
