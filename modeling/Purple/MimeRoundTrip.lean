/-
A multipart document that is written and parsed again has its parts in reverse.
-/

import Mathlib.Data.List.DropRight
import Purple.MimeFields

namespace Purple.Mime

open List Option CString

/-- The same names with the same values; the lists of the names may differ in order. -/
structure SameFields (first second : MimeFields) : Prop where
  values : ∀ key, first.map.lookup key = second.map.lookup key
  keys : ∀ key, key ∈ first.keys ↔ key ∈ second.keys

structure SamePart (first second : MimePart) : Prop where
  fields : SameFields first.fields second.fields
  data : first.data = second.data

structure SameDocument (first second : MimeDocument) : Prop where
  fields : SameFields first.fields second.fields
  parts : List.Forall₂ SamePart first.parts second.parts

def RoundTrips (doc : MimeDocument) : Prop :=
  ∃ parsed, purpleMimeDocumentParse (purpleMimeDocumentWrite doc) = some parsed ∧
    SameDocument parsed doc

def Listed (mf : MimeFields) : Prop := ∀ key, key ∈ mf.keys ↔ (mf.map.lookup key).isSome

def LegibleFields (mf : MimeFields) : Prop := ∀ entry ∈ mf.map.entries, LegibleField entry

structure LegiblePart (bd : Bytes) (part : MimePart) : Prop where
  fields : LegibleFields part.fields
  apart : ¬dashes ++ bd <:+: part.fields.map.entries.flatMap fieldWrite
  data : ¬dashes ++ bd <:+: part.data

structure Legible (doc : MimeDocument) (bd : Bytes) : Prop where
  fields : LegibleFields doc.fields
  written : (multipartType doc.fields).bind behindEquals = some bd
  read : (multipartType doc.fields).bind parseBoundary = some bd
  parts : ∀ part ∈ doc.parts, LegiblePart bd part

def Stripped (mf : MimeFields) : Prop := ∀ entry ∈ mf.map.entries, strstrip entry.2 = entry.2

structure Restorable (doc : MimeDocument) : Prop where
  fields : Stripped doc.fields
  parts : ∀ part ∈ doc.parts, Stripped part.fields ∧ part.data ≠ []
  order : List.Forall₂ SamePart doc.parts.reverse doc.parts

/-! ### Fields -/

variable {mf first : MimeFields} {part : MimePart} {bd : Bytes} {parts : List MimePart}
  {doc : MimeDocument}

theorem listed_init : Listed fieldsInit := by
  intro key
  constructor
  · intro member
    cases member
  · intro found
    cases found

theorem listed_set (listed : Listed mf) (key val : Bytes) : Listed (fieldsSet mf key val) := by
  intro other
  unfold fieldsSet
  by_cases same : other = strdown key
  · rw [same]
    simp only [HashTable.lookup_insert_self, isSome_some, iff_true]
    split
    · rename_i present
      exact (listed _).mpr present
    · exact mem_append_right _ mem_cons_self
  · simp only [HashTable.lookup_insert_other _ same]
    rw [← listed other]
    split
    · exact Iff.rfl
    · rw [mem_append, mem_singleton]
      exact ⟨fun either => either.resolve_right same, .inl⟩

theorem sameFields_iff {second : MimeFields} (left : Listed first) (right : Listed second) :
    SameFields first second ↔ ∀ key, first.map.lookup key = second.map.lookup key := by
  refine ⟨SameFields.values, fun values => ⟨values, fun key => ?_⟩⟩
  rw [left, right, values]

theorem sameFields_symm {second : MimeFields} (same : SameFields first second) :
    SameFields second first :=
  ⟨fun key => (same.values key).symm, fun key => (same.keys key).symm⟩

theorem sameFields_trans {middle last : MimeFields} (early : SameFields first middle)
    (late : SameFields middle last) : SameFields first last :=
  ⟨fun key => (early.values key).trans (late.values key),
    fun key => (early.keys key).trans (late.keys key)⟩

theorem listed_loaded (listed : Listed mf) (entries : List (Bytes × Bytes)) :
    Listed (fieldsLoaded mf entries) := by
  induction entries generalizing mf with
  | nil => exact listed
  | cons entry rest ih => exact ih (listed_set listed _ _)

theorem lookup_loaded {entries : List (Bytes × Bytes)}
    (lower : ∀ entry ∈ entries, strdown entry.1 = entry.1)
    (distinct : (entries.map Prod.fst).Nodup) (mf : MimeFields) (key : Bytes) :
    (fieldsLoaded mf entries).map.lookup key =
      ((HashTable.find key entries).map strstrip).or (mf.map.lookup key) := by
  induction entries generalizing mf with
  | nil => rfl
  | cons entry rest ih =>
    obtain ⟨name, value⟩ := entry
    obtain ⟨absent, later⟩ := nodup_cons.mp distinct
    have isLower : strdown name = name := lower _ mem_cons_self
    rw [fieldsLoaded, ih (fun other member => lower other (mem_cons_of_mem _ member)) later,
      HashTable.find, fieldsSet, isLower]
    by_cases same : name = key
    · subst same
      rw [HashTable.find_eq_none.mpr absent, if_pos rfl, HashTable.lookup_insert_self]
      rfl
    · rw [if_neg same, HashTable.lookup_insert_other _ (Ne.symm same)]

def reread (mf : MimeFields) : MimeFields := fieldsLoaded fieldsInit mf.map.entries

theorem lookup_reread (legible : LegibleFields mf) (key : Bytes) :
    (reread mf).map.lookup key = (mf.map.lookup key).map strstrip := by
  rw [reread, lookup_loaded (fun entry member => (legible entry member).lower)
    mf.map.distinct]
  exact or_none

theorem length_written (entries : List (Bytes × Bytes)) :
    entries.length ≤ (entries.flatMap fieldWrite).length := by
  induction entries with
  | nil => exact Nat.le_refl 0
  | cons entry rest ih =>
    rw [flatMap_cons, length_append, length_cons, fieldWrite, length_append,
      length_append, length_cons]
    omega

theorem loadFields_written (legible : LegibleFields mf) (more : Bytes) :
    loadFields (fieldsWrite mf ++ more) = some (reread mf, more) := by
  refine fieldsLoad_written legible fieldsInit more ?_
  have written := length_written mf.map.entries
  rw [fieldsWrite, length_append, length_append]
  omega

theorem stripped_iff (listed : Listed mf) (legible : LegibleFields mf) :
    SameFields (reread mf) mf ↔ Stripped mf := by
  have rereadListed : Listed (reread mf) := listed_loaded listed_init _
  rw [sameFields_iff rereadListed listed]
  constructor
  · intro same entry member
    have found := HashTable.mem_entries.mp member
    have values := same entry.1
    rw [lookup_reread legible, found] at values
    exact Option.some.inj values
  · intro stripped key
    rw [lookup_reread legible]
    cases found : mf.map.lookup key with
    | none => rfl
    | some value =>
      exact congrArg some (stripped (key, value) (HashTable.mem_entries.mpr found))

/-! ### Parts -/

/-- The part as it is read again; four bytes of an empty part are left. -/
def rereadPart (part : MimePart) : MimePart :=
  { fields := reread part.fields
    data := if part.data = [] then crlf ++ crlf else part.data }

theorem trimmed_written (data : Bytes) :
    trimmed (data ++ crlf ++ crlf) = if data = [] then crlf ++ crlf else data := by
  have length : (data ++ crlf ++ crlf).length = data.length + 4 := by
    rw [length_append, length_append]
    rfl
  unfold trimmed
  rw [length]
  by_cases empty : data = []
  · rw [empty]
    rfl
  · have positive := length_pos_iff.mpr empty
    rw [if_pos (by omega), if_neg empty, Nat.add_sub_cancel, append_assoc, take_left' rfl]

theorem partLoad_written (legible : LegibleFields part.fields) :
    partLoad (partWrite part) = some (rereadPart part) := by
  have written : partWrite part =
      fieldsWrite part.fields ++ (part.data ++ crlf ++ crlf) := by
    rw [partWrite, append_assoc, append_assoc, append_assoc]
  rw [partLoad, written, loadFields_written legible, map_some, trimmed_written]
  rfl

theorem boundary_plain {byte : UInt8} (plain : byte ∉ bd) (noDash : byte ≠ 45) :
    byte ∉ dashes ++ bd := by
  intro member
  rcases mem_append.mp member with dash | inside
  · have isDash : byte = 45 := by simpa [dashes] using dash
    exact noDash isDash
  · exact plain inside

theorem apart_written (noReturn : 13 ∉ bd) (noFeed : 10 ∉ bd) (legible : LegiblePart bd part) :
    ¬dashes ++ bd <:+: partWrite part := by
  have return_apart := boundary_plain noReturn (by decide)
  have feed_apart := boundary_plain noFeed (by decide)
  have nonempty : dashes ++ bd ≠ [] := cons_ne_nil _ _
  have written : partWrite part = part.fields.map.entries.flatMap fieldWrite ++
      13 :: ([] ++ 10 :: (part.data ++ 13 :: [10, 13, 10])) := by
    simp [partWrite, fieldsWrite, crlf]
  rw [written]
  intro inside
  rcases infix_separated return_apart nonempty inside with inFields | later
  · exact legible.apart inFields
  · rcases infix_separated feed_apart nonempty later with inNothing | behind
    · exact nonempty (infix_nil.mp inNothing)
    · rcases infix_separated return_apart nonempty behind with inData | last
      · exact legible.data inData
      · have dash : (45 : UInt8) ∈ ([10, 13, 10] : Bytes) := last.subset mem_cons_self
        exact absurd dash (by decide)

def partsText (bd : Bytes) : List MimePart → Bytes
  | [] => dashes ++ bd ++ (dashes ++ crlf)
  | part :: rest => dashes ++ bd ++ (crlf ++ (partWrite part ++ partsText bd rest))

theorem partsWrite_text (bd : Bytes) (part : MimePart) (rest : List MimePart) :
    partsWrite bd (part :: rest) = partsText bd (part :: rest) := by
  induction rest generalizing part with
  | nil => simp only [partsWrite, partsText, append_assoc]
  | cons next rest ih =>
    rw [partsWrite, ih]
    simp only [partsText, append_assoc]

theorem partsText_start (bd : Bytes) (parts : List MimePart) :
    ∃ more, partsText bd parts = dashes ++ bd ++ more := by
  cases parts with
  | nil => exact ⟨_, rfl⟩
  | cons part rest => exact ⟨_, rfl⟩

theorem partWrite_last (part : MimePart) : (partWrite part).getLast? = some 10 := by
  rw [partWrite, crlf, getLast?_append]
  rfl

theorem strstr_part (noReturn : 13 ∉ bd) (noFeed : 10 ∉ bd) (legible : LegiblePart bd part)
    (parts : List MimePart) :
    strstr (dashes ++ bd) (partWrite part ++ partsText bd parts) =
      some (partWrite part).length := by
  obtain ⟨more, start⟩ := partsText_start bd parts
  rw [start, ← append_assoc]
  refine strstr_behind (apart_written noReturn noFeed legible) ?_ more
  intro byte isLast
  rw [partWrite_last] at isLast
  cases isLast
  exact boundary_plain noFeed (by decide)

theorem partsText_length (bd : Bytes) (parts : List MimePart) :
    parts.length ≤ (partsText bd parts).length := by
  induction parts with
  | nil => exact Nat.zero_le _
  | cons part rest ih =>
    have two : crlf.length = 2 := rfl
    rw [partsText, length_append, @length_append _ crlf, two,
      @length_append _ (partWrite part), length_cons]
    omega

section Boundary

variable {bnd pair text : Bytes} {n : Nat}

theorem skip_pair (two : pair.length = 2) (within : (bnd ++ (pair ++ text)).length ≤ n) :
    2 ≤ n - bnd.length ∧ (bnd ++ (pair ++ text)).drop bnd.length = pair ++ text ∧
      (pair ++ text).drop 2 = text ∧ text.take (n - bnd.length - 2) = text := by
  rw [length_append, length_append, two] at within
  refine ⟨by omega, drop_left' rfl, drop_left' two, ?_⟩
  exact take_of_length_le (by omega)

theorem docPartsLoad_last (two : pair.length = 2)
    (within : (bnd ++ (pair ++ text)).length ≤ n) (absent : strstr bnd text = none)
    (before : List MimePart) (rounds : Nat) :
    docPartsLoad bnd (rounds + 1) before (bnd ++ (pair ++ text)) n = some before := by
  obtain ⟨room, behind, skipped, whole⟩ := skip_pair two within
  have long : ¬(pair ++ text).length < 2 := by
    rw [length_append, two]
    omega
  rw [docPartsLoad]
  simp only [if_pos room, behind, if_neg long, skipped, whole, absent]

theorem docPartsLoad_next (two : pair.length = 2)
    (within : (bnd ++ (pair ++ text)).length ≤ n) {sl : Nat}
    (found : strstr bnd text = some (sl + 1)) {part : MimePart}
    (loaded : partLoad (text.take (sl + 1)) = some part) (before : List MimePart) (rounds : Nat) :
    docPartsLoad bnd (rounds + 1) before (bnd ++ (pair ++ text)) n =
      docPartsLoad bnd rounds (part :: before) (text.drop (sl + 1)) (n - bnd.length - 2) := by
  obtain ⟨room, behind, skipped, whole⟩ := skip_pair two within
  have long : ¬(pair ++ text).length < 2 := by
    rw [length_append, two]
    omega
  rw [docPartsLoad]
  simp only [if_pos room, behind, if_neg long, skipped, whole, found, loaded, bind_some]

end Boundary

theorem docPartsLoad_text (noReturn : 13 ∉ bd) (noFeed : 10 ∉ bd)
    (legible : ∀ part ∈ parts, LegiblePart bd part) (before : List MimePart) {rounds n : Nat}
    (enough : parts.length < rounds) (within : (partsText bd parts).length ≤ n) :
    docPartsLoad (dashes ++ bd) rounds before (partsText bd parts) n =
      some ((parts.map rereadPart).reverse ++ before) := by
  induction parts generalizing before rounds n with
  | nil =>
    cases rounds with
    | zero => exact absurd enough (Nat.not_lt_zero _)
    | succ rounds =>
      exact docPartsLoad_last rfl within (strstr_absent (by decide)) before rounds
  | cons part rest ih =>
    cases rounds with
    | zero => exact absurd enough (Nat.not_lt_zero _)
    | succ rounds =>
      have own := legible part mem_cons_self
      have found := strstr_part noReturn noFeed own rest
      have positive : (partWrite part).length ≠ 0 := by
        rw [partWrite, length_append]
        exact Nat.succ_ne_zero _
      obtain ⟨sl, length⟩ := Nat.exists_eq_succ_of_ne_zero positive
      rw [length] at found
      have text : (partWrite part ++ partsText bd rest).take (sl + 1) = partWrite part :=
        take_left' length
      have loaded : partLoad ((partWrite part ++ partsText bd rest).take (sl + 1)) =
          some (rereadPart part) := by
        rw [text]
        exact partLoad_written own.fields
      have behind : (partWrite part ++ partsText bd rest).drop (sl + 1) = partsText bd rest :=
        drop_left' length
      rw [partsText, docPartsLoad_next rfl within found loaded, behind,
        ih (fun other member => legible other (mem_cons_of_mem _ member)) _
          (Nat.lt_of_succ_lt_succ enough)]
      · rw [map_cons, reverse_cons, append_assoc, singleton_append]
      · have two : crlf.length = 2 := rfl
        rw [partsText, length_append, @length_append _ crlf, two,
          @length_append _ (partWrite part)] at within
        omega

theorem loadParts_text (noReturn : 13 ∉ bd) (noFeed : 10 ∉ bd)
    (legible : ∀ part ∈ parts, LegiblePart bd part) :
    loadParts bd (partsText bd parts) = some (parts.map rereadPart).reverse := by
  obtain ⟨more, start⟩ := partsText_start bd parts
  have found : strstr (dashes ++ bd) (partsText bd parts) = some 0 := by
    rw [start]
    refine @strstr_behind (dashes ++ bd) [] ?_ ?_ more
    · exact fun inside => cons_ne_nil _ _ (infix_nil.mp inside)
    · intro byte isLast
      cases isLast
  unfold loadParts
  simp only [found, drop_zero]
  rw [docPartsLoad_text noReturn noFeed legible [] (Nat.lt_succ_of_le (partsText_length bd parts))
    (Nat.le_refl _), append_nil]

theorem behindEquals_subset {ct : Bytes} (found : behindEquals ct = some bd) :
    ∀ byte ∈ bd, byte ∈ ct := by
  intro byte member
  unfold behindEquals at found
  split at found
  · cases found
    exact mem_reverse.mp ((takeWhile_sublist _).subset (mem_reverse.mp member))
  · cases found

theorem legible_boundary (legible : Legible doc bd) : 13 ∉ bd ∧ 10 ∉ bd := by
  obtain ⟨ct, isType, isBoundary⟩ := bind_eq_some_iff.mp legible.written
  obtain ⟨found, -⟩ := filter_eq_some_iff.mp isType
  have field := legible.fields _ (HashTable.mem_entries.mpr found)
  exact ⟨fun member => field.valueLine (behindEquals_subset isBoundary _ member),
    fun member => field.valueFeed (behindEquals_subset isBoundary _ member)⟩

theorem write_legible (legible : Legible doc bd) :
    purpleMimeDocumentWrite doc = fieldsWrite doc.fields ++ partsWrite bd doc.parts := by
  rw [purpleMimeDocumentWrite, legible.written]
  rfl

theorem load_written (legible : Legible doc bd) :
    purpleMimeDocumentWrite doc ≠ [] ∧
      loadFields (purpleMimeDocumentWrite doc) =
        some (reread doc.fields, partsWrite bd doc.parts) := by
  rw [write_legible legible]
  refine ⟨?_, loadFields_written legible.fields _⟩
  rw [fieldsWrite]
  simp [crlf]

theorem parsed_fields {parsed : MimeDocument} (legible : Legible doc bd)
    (result : purpleMimeDocumentParse (purpleMimeDocumentWrite doc) = some parsed) :
    parsed.fields = reread doc.fields := by
  obtain ⟨nonempty, loaded⟩ := load_written legible
  rw [purpleMimeDocumentParse, if_neg nonempty, loaded, bind_some] at result
  obtain ⟨parts, -, rfl⟩ := map_eq_some_iff.mp result
  rfl

theorem parse_stripped (listed : Listed doc.fields) (legible : Legible doc bd)
    (stripped : Stripped doc.fields) :
    purpleMimeDocumentParse (purpleMimeDocumentWrite doc) =
      some { fields := reread doc.fields, parts := (doc.parts.map rereadPart).reverse } := by
  obtain ⟨nonempty, loaded⟩ := load_written legible
  have same := ((stripped_iff listed legible.fields).mpr stripped).values
  have sameType : multipartType (reread doc.fields) = multipartType doc.fields := by
    rw [multipartType, multipartType, fieldsGet, fieldsGet, same]
  have parts : loadParts bd (partsWrite bd doc.parts) =
      some (doc.parts.map rereadPart).reverse := by
    cases list : doc.parts with
    | nil => rfl
    | cons part rest =>
      rw [partsWrite_text]
      obtain ⟨noReturn, noFeed⟩ := legible_boundary legible
      refine loadParts_text noReturn noFeed ?_
      rw [← list]
      exact legible.parts
  rw [purpleMimeDocumentParse, if_neg nonempty, loaded, bind_some, sameType, legible.read,
    map_some, getD_some, parts]
  rfl

theorem strstrip_again (text : Bytes) : strstrip (strstrip text) = strstrip text := by
  change ((text.dropWhile asciiSpace).rdropWhile asciiSpace |>.dropWhile asciiSpace).rdropWhile
    asciiSpace = (text.dropWhile asciiSpace).rdropWhile asciiSpace
  have front : ((text.dropWhile asciiSpace).rdropWhile asciiSpace).dropWhile asciiSpace =
      (text.dropWhile asciiSpace).rdropWhile asciiSpace := by
    rw [dropWhile_eq_self_iff]
    intro positive
    have initial : (text.dropWhile asciiSpace).rdropWhile asciiSpace <+:
        text.dropWhile asciiSpace := rdropWhile_prefix asciiSpace _
    rw [initial.getElem positive]
    exact dropWhile_get_zero_not asciiSpace text _
  rw [front, rdropWhile_idempotent]

theorem samePart_symm {first second : MimePart} (same : SamePart first second) :
    SamePart second first := ⟨sameFields_symm same.fields, same.data.symm⟩

theorem samePart_trans {first middle last : MimePart} (early : SamePart first middle)
    (late : SamePart middle last) : SamePart first last :=
  ⟨sameFields_trans early.fields late.fields, early.data.trans late.data⟩

theorem reread_same (listed : Listed part.fields) (legible : LegibleFields part.fields)
    (stripped : Stripped part.fields) (filled : part.data ≠ []) : SamePart (rereadPart part) part :=
  ⟨(stripped_iff listed legible).mpr stripped, if_neg filled⟩

theorem restored_of_same {origin : MimePart} (legible : LegibleFields origin.fields)
    (same : SamePart (rereadPart origin) part) : Stripped part.fields ∧ part.data ≠ [] := by
  constructor
  · intro entry member
    have found := same.fields.values entry.1
    rw [HashTable.mem_entries.mp member] at found
    change (reread origin.fields).map.lookup entry.1 = some entry.2 at found
    rw [lookup_reread legible] at found
    obtain ⟨value, -, isStripped⟩ := map_eq_some_iff.mp found
    rw [← isStripped]
    exact strstrip_again value
  · rw [← same.data]
    change (if origin.data = [] then crlf ++ crlf else origin.data) ≠ []
    split
    · exact cons_ne_nil _ _
    · assumption

theorem sameParts_data {left right : List MimePart} (same : List.Forall₂ SamePart left right) :
    left.map MimePart.data = right.map MimePart.data := by
  induction same with
  | nil => rfl
  | cons own _ ih => rw [map_cons, map_cons, own.data, ih]

theorem forall₂_mem_right {α β : Type} {relation : α → β → Prop} {left : List α} {right : List β}
    (related : List.Forall₂ relation left right) {second : β} (member : second ∈ right) :
    ∃ first ∈ left, relation first second := by
  induction related with
  | nil => cases member
  | @cons first other rest more own _ ih =>
    rcases mem_cons.mp member with same | later
    · rw [same]
      exact ⟨first, mem_cons_self, own⟩
    · obtain ⟨found, inside, isRelated⟩ := ih later
      exact ⟨found, mem_cons_of_mem _ inside, isRelated⟩

theorem reread_parts {others : List MimePart}
    (kept : ∀ part ∈ parts, SamePart (rereadPart part) part) :
    List.Forall₂ SamePart (parts.map rereadPart) others ↔ List.Forall₂ SamePart parts others := by
  rw [forall₂_map_left_iff]
  induction parts generalizing others with
  | nil => rw [forall₂_nil_left_iff, forall₂_nil_left_iff]
  | cons part rest ih =>
    have own := kept part mem_cons_self
    have keptRest := fun other member => kept other (mem_cons_of_mem part member)
    constructor
    · intro related
      cases related with
      | cons first more => exact .cons (samePart_trans (samePart_symm own) first) ((ih keptRest).mp more)
    · intro related
      cases related with
      | cons first more => exact .cons (samePart_trans own first) ((ih keptRest).mpr more)

inductive Built : MimeDocument → Prop
  | new : Built purpleMimeDocumentNew
  | setField {doc : MimeDocument} (built : Built doc) (field value : Bytes) :
      Built (purpleMimeDocumentSetField doc field value)
  | partNew {doc : MimeDocument} (built : Built doc) : Built (purpleMimePartNew doc)
  | partSetField {doc : MimeDocument} (built : Built doc) (index : Nat) (field value : Bytes) :
      Built { doc with
        parts := doc.parts.modify index fun part => purpleMimePartSetField part field value }
  | partSetData {doc : MimeDocument} (built : Built doc) (index : Nat) (data : Bytes) :
      Built { doc with
        parts := doc.parts.modify index fun part => purpleMimePartSetData part data }

theorem listed_modify (listed : ∀ part ∈ parts, Listed part.fields) {change : MimePart → MimePart}
    (keeps : ∀ part, Listed part.fields → Listed (change part).fields) (index : Nat) :
    ∀ part ∈ parts.modify index change, Listed part.fields := by
  intro part member
  obtain ⟨place, found⟩ := mem_iff_getElem?.mp member
  rw [getElem?_modify] at found
  obtain ⟨old, isOld, same⟩ := map_eq_some_iff.mp found
  have own := listed old (mem_iff_getElem?.mpr ⟨place, isOld⟩)
  rw [← same]
  split
  · exact keeps old own
  · exact own

theorem built_listed (built : Built doc) :
    Listed doc.fields ∧ ∀ part ∈ doc.parts, Listed part.fields := by
  induction built with
  | new => exact ⟨listed_init, nofun⟩
  | setField built field value ih => exact ⟨listed_set ih.1 field value, ih.2⟩
  | partNew built ih =>
    refine ⟨ih.1, fun part member => ?_⟩
    rcases mem_cons.mp member with fresh | old
    · rw [fresh]
      exact listed_init
    · exact ih.2 part old
  | partSetField built index field value ih =>
    exact ⟨ih.1, listed_modify ih.2 (fun part own => listed_set own field value) index⟩
  | partSetData built index data ih =>
    have same : ∀ part, Listed part.fields → Listed (purpleMimePartSetData part data).fields :=
      fun _ own => own
    exact ⟨ih.1, listed_modify ih.2 same index⟩

/-! ### The round trip -/

/-- `multipart/mixed; boundary=b` with two parts. -/
def twoParts (first second : Bytes) : MimeDocument :=
  let doc := purpleMimePartNew (purpleMimePartNew (purpleMimeDocumentSetField
    purpleMimeDocumentNew contentType (ascii "multipart/mixed; boundary=b")))
  { doc with
    parts := (doc.parts.modify 0 fun part => purpleMimePartSetData part first).modify 1
      fun part => purpleMimePartSetData part second }

theorem twoParts_built (first second : Bytes) : Built (twoParts first second) :=
  .partSetData (.partSetData (.partNew (.partNew (.setField .new _ _))) 0 first) 1 second

theorem twoParts_legible {first second : Bytes} (left : ¬ascii "--b" <:+: first)
    (right : ¬ascii "--b" <:+: second) : Legible (twoParts first second) (ascii "b") := by
  have legible : LegibleField (contentType, ascii "multipart/mixed; boundary=b") := by
    constructor <;> decide
  have fields : (twoParts first second).fields =
      fieldsSet fieldsInit contentType (ascii "multipart/mixed; boundary=b") := rfl
  have written : (multipartType (fieldsSet fieldsInit contentType
      (ascii "multipart/mixed; boundary=b"))).bind behindEquals = some (ascii "b") := by decide
  have found : (multipartType (fieldsSet fieldsInit contentType
      (ascii "multipart/mixed; boundary=b"))).bind parseBoundary = some (ascii "b") := by decide
  have noFields : ¬dashes ++ ascii "b" <:+: [] := by decide
  refine ⟨?_, fields ▸ written, fields ▸ found, ?_⟩
  · intro entry member
    rw [mem_singleton.mp member]
    exact legible
  · intro part member
    rcases mem_pair.mp member with rfl | rfl
    · exact ⟨nofun, noFields, left⟩
    · exact ⟨nofun, noFields, right⟩

end Purple.Mime
