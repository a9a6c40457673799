/-
When the fields of a Novell array arrive.

Tags without a separator, values whose escaped form fits in the buffer, and sub arrays
whose fields are all sent.
-/

import Purple.Novell.Fields
import Purple.Separated

namespace Purple.Novell

open List CString Decimal Separated

mutual

/-- A number of skipped fields that a `guint32` does not see is none, or has 33 bits. -/
def NMField.ValueFits : NMField → Prop
  | .text _ _ _ ptrValue => (urlEscapeString ptrValue).length ≤ 4090
  | .array _ _ _ ptrValue =>
    2 ^ 32 ∣ ptrValue.countP NMField.skipped ∧ sentCount ptrValue < 2 ^ 31 ∧ ValuesFit ptrValue
  | _ => True

def ValuesFit : List NMField → Prop
  | [] => True
  | field :: fields => (field.skipped = true ∨ field.ValueFits) ∧ ValuesFit fields

end

def TagsClean (fields : List NMField) : Prop := ∀ entry ∈ entries fields, 38 ∉ entry.tag

variable {formatted : Bytes} {fields : List NMField}

theorem skipped_count (fields : List NMField) :
    fields.countP NMField.skipped + sentCount fields = fields.length := by
  have whole := length_eq_countP_add_countP NMField.skipped (l := fields)
  have same : (fun field : NMField => decide (¬ field.skipped = true)) = fun field => !field.skipped := by
    funext field
    cases field.skipped with
    | false => rfl
    | true => rfl
  rw [whole, sentCount, same]

theorem decimal_inj {left right : Nat} (same : decimal left = decimal right) : left = right := by
  have read := scanDigits_decimal left
  rw [same, scanDigits_decimal right] at read
  exact (Option.some.inj read).symm

theorem writeValue_short (short : formatted.length < bufferSize) :
    writeValue formatted = formatted := if_pos short

theorem writeValue_eq_iff (clean : 0 ∉ formatted) :
    writeValue formatted = formatted ↔ formatted.length < bufferSize := by
  constructor
  · intro same
    by_cases short : formatted.length < bufferSize
    · exact short
    · rw [writeValue, if_neg short] at same
      exact absurd (same ▸ mem_append_right _ mem_cons_self) clean
  · exact writeValue_short

theorem item_length (name : String) (value : Bytes) :
    (item name value).length = (ascii name).length + value.length := length_append

theorem valueWrite_text (tag : Tag) (method : UInt8) (type : TextType) (ptrValue : Bytes) :
    (NMField.text tag method type ptrValue).valueWrite = item "&val=" (urlEscapeString ptrValue) ↔
      (urlEscapeString ptrValue).length ≤ 4090 := by
  have clean : 0 ∉ item "&val=" (urlEscapeString ptrValue) := by
    intro member
    obtain name | inside := mem_append.mp member
    · exact absurd name (by decide)
    · exact (urlEscapeString_clean ptrValue).2 inside
  have length := item_length "&val=" (urlEscapeString ptrValue)
  have five : (ascii "&val=").length = 5 := rfl
  have size : bufferSize = 4096 := rfl
  rw [NMField.valueWrite, writeValue_eq_iff clean]
  omega

theorem valueWrite_array (tag : Tag) (method : UInt8) (type : ArrayType) (ptrValue : List NMField) :
    (NMField.array tag method type ptrValue).valueWrite =
        item "&val=" (urlEscapeString (decimal (sentCount ptrValue))) ↔
      nmCountFields ptrValue = sentCount ptrValue := by
  rw [urlEscapeString_decimal, NMField.valueWrite]
  constructor
  · intro same
    exact decimal_inj (append_cancel_left same)
  · intro same
    rw [same]

theorem countFields_eq_iff (few : sentCount fields < 2 ^ 31) :
    nmCountFields fields = sentCount fields ↔ 2 ^ 32 ∣ fields.countP NMField.skipped := by
  have whole := skipped_count fields
  rw [nmCountFields]
  omega

theorem flatMap_items_length (list : List Entry) : (list.flatMap Entry.items).length = 4 * list.length := by
  induction list with
  | nil => rfl
  | cons entry list ih =>
    rw [flatMap_cons, length_append, ih, length_cons]
    change 4 + 4 * list.length = _
    omega

mutual

theorem subWrites_length (field : NMField) : (subWrites field).length ≤ 4 * (subEntries field).length := by
  cases field with
  | array tag method type ptrValue =>
    by_cases positive : valPositive ptrValue = true
    · rw [subWrites, if_pos positive, subEntries]
      exact nmWriteFields_length ptrValue
    · rw [subWrites, if_neg positive]
      exact Nat.zero_le _
  | text => exact Nat.zero_le _
  | number => exact Nat.zero_le _
  | binary => exact Nat.zero_le _

theorem nmWriteFields_length (fields : List NMField) :
    (nmWriteFields fields).length ≤ 4 * (entries fields).length := by
  cases fields with
  | nil => exact Nat.zero_le _
  | cons field fields =>
    have sub := subWrites_length field
    have rest := nmWriteFields_length fields
    rw [nmWriteFields, entries]
    split
    · exact rest
    · rw [length_append, length_append, length_cons, length_append]
      change 4 + (subWrites field).length + _ ≤ _
      omega

end

theorem entries_length (fields : List NMField) : sentCount fields ≤ (entries fields).length := by
  induction fields with
  | nil => exact Nat.zero_le _
  | cons field fields ih =>
    rw [sentCount, countP_cons, entries]
    change sentCount fields + _ ≤ _
    by_cases out : field.skipped = true
    · rw [if_pos out, out]
      exact ih
    · rw [if_neg out, Bool.not_eq_true] at *
      rw [out, length_cons, length_append]
      change sentCount fields + 1 ≤ _
      omega

theorem entries_none (none : sentCount fields = 0) : entries fields = [] := by
  induction fields with
  | nil => rfl
  | cons field fields ih =>
    rw [sentCount, countP_cons] at none
    change sentCount fields + _ = 0 at none
    by_cases out : field.skipped = true
    · rw [entries, if_pos out]
      exact ih (by omega)
    · rw [if_pos (by rw [Bool.not_eq_true] at out; rw [out]; rfl)] at none
      omega

theorem valuesFit_of_none (none : entries fields = []) : ValuesFit fields := by
  induction fields with
  | nil => trivial
  | cons field fields ih =>
    rw [entries] at none
    split at none
    · rename_i out
      exact ⟨Or.inl out, ih none⟩
    · exact absurd none (cons_ne_nil _ _)

theorem ownWrites_eq_iff (field : NMField) :
    field.ownWrites = field.entry.items ↔
      field.valueWrite = item "&val=" (urlEscapeString field.plainValue) := by
  constructor
  · intro same
    change [_, _, field.valueWrite, _] = [_, _, item "&val=" (urlEscapeString field.plainValue), _] at same
    simp only [List.cons.injEq] at same
    exact same.2.2.1
  · intro same
    rw [NMField.ownWrites, same]
    rfl

theorem bmod_few {count : Nat} (few : count < 2 ^ 31) : (count : Int).bmod (2 ^ 32) = count :=
  Int.bmod_eq_of_le (by omega) (by omega)

theorem bmod_many {count : Nat} (many : 2 ^ 31 ≤ count) (below : count < 2 ^ 32) :
    (count : Int).bmod (2 ^ 32) < 0 := by
  have same : (count : Int) % (2 ^ 32 : Nat) = count := Int.emod_eq_of_lt (by omega) (by omega)
  have negative := Int.bmod_neg (count : Int) (2 ^ 32) (by omega)
  rw [negative, same]
  omega

theorem valPositive_few (few : nmCountFields fields < 2 ^ 31) :
    valPositive fields = decide (0 < nmCountFields fields) := by
  have same := bmod_few few
  unfold valPositive
  rw [same]
  exact decide_eq_decide.mpr (by omega)

theorem valPositive_many (many : 2 ^ 31 ≤ nmCountFields fields) : valPositive fields = false := by
  have below : nmCountFields fields < 2 ^ 32 := Nat.mod_lt _ (by decide)
  have negative := bmod_many many below
  unfold valPositive
  exact decide_eq_false (by omega)

theorem valueWrite_fits {field : NMField} (kept : ¬ field.skipped = true) (fit : field.ValueFits) :
    field.valueWrite = item "&val=" (urlEscapeString field.plainValue) := by
  cases field with
  | text tag method type ptrValue => exact (valueWrite_text tag method type ptrValue).mpr fit
  | array tag method type ptrValue =>
    obtain ⟨seen, few, _⟩ := fit
    exact (valueWrite_array tag method type ptrValue).mpr ((countFields_eq_iff few).mpr seen)
  | number tag method type value =>
    change _ = item "&val=" (urlEscapeString (decimal value.toNat))
    rw [urlEscapeString_decimal]
    rfl
  | binary tag method =>
    have out : (NMField.binary tag method).skipped = true := by
      rw [NMField.skipped]
      exact Bool.or_true _
    exact absurd out kept

mutual

theorem subWrites_eq_iff (field : NMField)
    (value : field.valueWrite = item "&val=" (urlEscapeString field.plainValue)) :
    subWrites field = (subEntries field).flatMap Entry.items ↔ field.ValueFits := by
  cases field with
  | text tag method type ptrValue =>
    exact iff_of_true rfl ((valueWrite_text tag method type ptrValue).mp value)
  | number => exact iff_of_true rfl trivial
  | binary => exact iff_of_true rfl trivial
  | array tag method type ptrValue =>
    have counted := (valueWrite_array tag method type ptrValue).mp value
    have inner := nmWriteFields_eq_iff ptrValue
    have enough := entries_length ptrValue
    change (if valPositive ptrValue then nmWriteFields ptrValue else []) =
      allItems ptrValue ↔ _ ∧ _ ∧ ValuesFit ptrValue
    by_cases few : sentCount ptrValue < 2 ^ 31
    · have seen := (countFields_eq_iff few).mp counted
      by_cases none : sentCount ptrValue = 0
      · have empty := entries_none none
        rw [valPositive_few (counted ▸ few), counted, none, allItems, empty]
        exact iff_of_true rfl ⟨seen, by omega, valuesFit_of_none empty⟩
      · have positive : valPositive ptrValue = true := by
          rw [valPositive_few (counted ▸ few), counted]
          exact decide_eq_true (by omega)
        rw [if_pos positive, inner]
        exact ⟨fun fit => ⟨seen, few, fit⟩, fun fits => fits.2.2⟩
    · -- the count of a long array is a negative `int`
      have many : valPositive ptrValue = false := valPositive_many (by omega)
      rw [many]
      constructor
      · intro same
        have none := congrArg List.length same
        change 0 = (allItems ptrValue).length at none
        rw [allItems, flatMap_items_length] at none
        omega
      · intro fits
        exact absurd fits.2.1 few

theorem nmWriteFields_eq_iff (fields : List NMField) :
    nmWriteFields fields = allItems fields ↔ ValuesFit fields := by
  cases fields with
  | nil => exact iff_of_true rfl trivial
  | cons field fields =>
    have inner := nmWriteFields_eq_iff fields
    have sub := subWrites_eq_iff field
    change nmWriteFields (field :: fields) = allItems (field :: fields) ↔
      (field.skipped = true ∨ field.ValueFits) ∧ ValuesFit fields
    by_cases out : field.skipped = true
    · rw [nmWriteFields, if_pos out, allItems, entries, if_pos out]
      exact ⟨fun same => ⟨Or.inl out, inner.mp same⟩, fun fits => inner.mpr fits.2⟩
    · have whole : allItems (field :: fields) =
          field.entry.items ++ (subEntries field).flatMap Entry.items ++ allItems fields := by
        rw [allItems, entries, if_neg out, flatMap_cons, flatMap_append, ← append_assoc]
        rfl
      rw [nmWriteFields, if_neg out, whole]
      constructor
      · intro same
        have subLength := subWrites_length field
        have restLength := nmWriteFields_length fields
        have length := congrArg List.length same
        rw [append_assoc, append_assoc] at same
        obtain ⟨own, later⟩ := append_inj same rfl
        have lengths := congrArg List.length later
        rw [length_append, length_append, flatMap_items_length, allItems,
          flatMap_items_length] at lengths
        obtain ⟨subSame, rest⟩ := append_inj later (by rw [flatMap_items_length]; omega)
        have value := (ownWrites_eq_iff field).mp own
        exact ⟨Or.inr ((sub value).mp subSame), inner.mp rest⟩
      · intro fits
        obtain ⟨here, later⟩ := fits
        have fit := here.resolve_left out
        have value := valueWrite_fits out fit
        rw [(ownWrites_eq_iff field).mpr value, (sub value).mpr fit, inner.mpr later]

end

theorem item_marked {name : String} {body value : Bytes} (named : ascii name = 38 :: body)
    (cleanName : 38 ∉ body) (clean : 38 ∉ value) : Marked 38 (item name value) := by
  refine ⟨body ++ value, ?_, ?_⟩
  · rw [item, named]
    rfl
  · intro member
    exact (mem_append.mp member).elim cleanName clean

theorem decimal_clean (value : Nat) : 38 ∉ decimal value := fun member =>
  absurd (decimal_digits value 38 member).1 (by decide)

theorem encodeMethod_clean (method : UInt8) : 38 ∉ encodeMethod method := by
  have every : ∀ code < 256, 38 ∉ encodeMethod (UInt8.ofNat code) := by decide +kernel
  have here := every method.toNat method.toNat_lt
  rw [UInt8.ofNat_toNat] at here
  exact here

mutual

theorem subEntries_all {P : Entry → Prop} (every : ∀ field : NMField, P field.entry) (field : NMField) :
    ∀ entry ∈ subEntries field, P entry := by
  cases field with
  | array tag method type ptrValue => exact entries_all every ptrValue
  | text => exact fun _ member => absurd member not_mem_nil
  | number => exact fun _ member => absurd member not_mem_nil
  | binary => exact fun _ member => absurd member not_mem_nil

theorem entries_all {P : Entry → Prop} (every : ∀ field : NMField, P field.entry)
    (fields : List NMField) : ∀ entry ∈ entries fields, P entry := by
  cases fields with
  | nil => exact fun _ member => absurd member not_mem_nil
  | cons field fields =>
    have sub := subEntries_all every field
    have rest := entries_all every fields
    intro entry member
    rw [entries] at member
    split at member
    · exact rest entry member
    · obtain rfl | member := mem_cons.mp member
      · exact every field
      · exact (mem_append.mp member).elim (sub entry) (rest entry)

end

theorem ascii_tag : ascii "&tag=" = 38 :: ascii "tag=" := rfl

theorem ascii_cmd : ascii "&cmd=" = 38 :: ascii "cmd=" := rfl

theorem ascii_val : ascii "&val=" = 38 :: ascii "val=" := rfl

theorem ascii_type : ascii "&type=" = 38 :: ascii "type=" := rfl

theorem items_marked (clean : TagsClean fields) :
    ∀ written ∈ allItems fields, Marked 38 written := by
  intro written member
  obtain ⟨entry, inside, member⟩ := mem_flatMap.mp member
  have others := entries_all (P := fun entry => 38 ∉ entry.method ∧ 38 ∉ entry.type)
    (fun field => ⟨encodeMethod_clean _, decimal_clean _⟩) fields entry inside
  simp only [Entry.items, mem_cons, not_mem_nil, or_false] at member
  obtain rfl | rfl | rfl | rfl := member
  · exact item_marked ascii_tag (by decide) (clean entry inside)
  · exact item_marked ascii_cmd (by decide) others.1
  · exact item_marked ascii_val (by decide) (urlEscapeString_clean _).1
  · exact item_marked ascii_type (by decide) others.2

theorem writeValue_marked (marked : Marked 38 formatted) : Marked 38 (writeValue formatted) := by
  obtain ⟨body, rfl, clean⟩ := marked
  rw [writeValue]
  split
  · exact ⟨body, rfl, clean⟩
  · refine ⟨body.take 4094 ++ [0], rfl, ?_⟩
    intro member
    obtain front | last := mem_append.mp member
    · exact clean (mem_of_mem_take front)
    · exact absurd last (by decide)

theorem ownWrites_marked {field : NMField} (kept : ¬ field.skipped = true)
    (clean : 38 ∉ field.tag.bytes) : ∀ written ∈ field.ownWrites, Marked 38 written := by
  intro written member
  simp only [NMField.ownWrites, mem_cons, not_mem_nil, or_false] at member
  obtain rfl | rfl | rfl | rfl := member
  · exact item_marked ascii_tag (by decide) clean
  · exact item_marked ascii_cmd (by decide) (encodeMethod_clean _)
  · cases field with
    | text tag method type ptrValue =>
      exact writeValue_marked (item_marked ascii_val (by decide) (urlEscapeString_clean _).1)
    | array tag method type ptrValue => exact item_marked ascii_val (by decide) (decimal_clean _)
    | number tag method type value => exact item_marked ascii_val (by decide) (decimal_clean _)
    | binary tag method => exact absurd (Bool.or_true _) kept
  · exact item_marked ascii_type (by decide) (decimal_clean _)

mutual

theorem subWrites_marked (field : NMField) (clean : ∀ entry ∈ subEntries field, 38 ∉ entry.tag) :
    ∀ written ∈ subWrites field, Marked 38 written := by
  cases field with
  | array tag method type ptrValue =>
    have inner := nmWriteFields_marked ptrValue clean
    intro written member
    by_cases positive : valPositive ptrValue = true
    · rw [subWrites, if_pos positive] at member
      exact inner written member
    · rw [subWrites, if_neg positive] at member
      exact absurd member not_mem_nil
  | text => exact fun _ member => absurd member not_mem_nil
  | number => exact fun _ member => absurd member not_mem_nil
  | binary => exact fun _ member => absurd member not_mem_nil

theorem nmWriteFields_marked (fields : List NMField) (clean : TagsClean fields) :
    ∀ written ∈ nmWriteFields fields, Marked 38 written := by
  cases fields with
  | nil => exact fun _ member => absurd member not_mem_nil
  | cons field fields =>
    have sub := subWrites_marked field
    have rest := nmWriteFields_marked fields
    by_cases out : field.skipped = true
    · rw [TagsClean, entries, if_pos out] at clean
      rw [nmWriteFields, if_pos out]
      exact rest clean
    · rw [TagsClean, entries, if_neg out] at clean
      have here := clean field.entry mem_cons_self
      have inSub := sub fun entry member =>
        clean entry (mem_cons_of_mem _ (mem_append_left _ member))
      have inRest := rest fun entry member =>
        clean entry (mem_cons_of_mem _ (mem_append_right _ member))
      rw [nmWriteFields, if_neg out]
      intro written member
      obtain front | member := mem_append.mp member
      · obtain own | nested := mem_append.mp front
        · exact ownWrites_marked out here written own
        · exact inSub written nested
      · exact inRest written member

end

theorem tagsClean_of_pieces {sent : Bytes}
    (pieces : (sent.splitOn 38).map decodePiece = [] :: (entries fields).flatMap Entry.pieces) :
    TagsClean fields := by
  intro entry inside tagged
  have member : item "tag=" entry.tag ∈ (sent.splitOn 38).map decodePiece := by
    rw [pieces]
    exact mem_cons_of_mem _ (mem_flatMap.mpr ⟨entry, inside, mem_cons_self⟩)
  obtain ⟨piece, part, same⟩ := List.mem_map.mp member
  rw [decodePiece] at same
  split at same
  · have front : ascii "val=" = ascii "tag=" := congrArg (List.take 4) same
    exact absurd front (by decide)
  · rw [same] at part
    exact mem_splitOn part (mem_append_right _ tagged)

theorem decodePiece_items (entry : Entry) :
    (entry.items.map List.tail).map decodePiece = entry.pieces := by
  have value : decodePiece (item "val=" (urlEscapeString entry.value)) = item "val=" entry.value := by
    have front : (item "val=" (urlEscapeString entry.value)).take 4 = ascii "val=" := rfl
    have back : (item "val=" (urlEscapeString entry.value)).drop 4 = urlEscapeString entry.value := rfl
    rw [decodePiece, if_pos front, back, urlDecode_urlEscapeString]
  change [decodePiece (item "tag=" entry.tag), decodePiece (item "cmd=" entry.method),
    decodePiece (item "val=" (urlEscapeString entry.value)), decodePiece (item "type=" entry.type)] = _
  rw [value]
  rfl

theorem decodePiece_allItems (list : List Entry) :
    ((list.flatMap Entry.items).map List.tail).map decodePiece = list.flatMap Entry.pieces := by
  induction list with
  | nil => rfl
  | cons entry list ih =>
    rw [flatMap_cons, map_append, map_append, decodePiece_items, ih, flatMap_cons]

/-- The fields arrive exactly when every value fits and no tag has a separator. -/
theorem nmWriteFields_delivers_iff (fields : List NMField) :
    Delivers fields ↔ ValuesFit fields ∧ TagsClean fields := by
  constructor
  · intro delivers
    obtain ⟨flat, pieces⟩ := delivers
    have clean := tagsClean_of_pieces pieces
    have same := flatten_inj (nmWriteFields_marked fields clean) (items_marked clean) flat
    exact ⟨(nmWriteFields_eq_iff fields).mp same, clean⟩
  · intro fits
    obtain ⟨fit, clean⟩ := fits
    have same := (nmWriteFields_eq_iff fields).mpr fit
    refine ⟨by rw [same], ?_⟩
    rw [same, splitOn_marked (items_marked clean), map_cons, allItems, decodePiece_allItems]
    rfl

def folderTag : Tag := ⟨ascii "FA", by decide, by decide⟩

def ignoredInArray : List NMField :=
  [.array folderTag 0 .array [.text folderTag 1 .utf8 (ascii "x")]]

/-- One field is announced and none is sent. -/
theorem nmWriteFields_ignoredInArray :
    (nmWriteFields ignoredInArray).flatten = ascii "&tag=FA&cmd=0&val=1&type=9" ∧
      (allItems ignoredInArray).flatten = ascii "&tag=FA&cmd=0&val=0&type=9" ∧
      ¬ Delivers ignoredInArray := by
  have sent : (nmWriteFields ignoredInArray).flatten = ascii "&tag=FA&cmd=0&val=1&type=9" := by
    decide +kernel
  have meant : (allItems ignoredInArray).flatten = ascii "&tag=FA&cmd=0&val=0&type=9" := by
    decide +kernel
  refine ⟨sent, meant, ?_⟩
  intro delivers
  have same := delivers.1
  rw [sent, meant] at same
  exact absurd same (by decide)

end Purple.Novell
