/-
Writing the preferences as XML, and what loading the XML does.

The XML of a node is that of the tree below it.  GMarkup reports the elements of
the printed text in order, with each attribute value read as XML prescribes.
File names are in UTF-8, so their conversions copy them.
-/

import Mathlib.Algebra.Group.Int.Defs
import Mathlib.Data.List.TakeWhile
import Purple.PrefsLoad
import Purple.XmlReparse

namespace Purple.Prefs

open List

inductive PrefTree where
  | node (name : Text) (value : PrefValue) (children : List PrefTree)

mutual

/-- The node and those below it have the names, types, values and order of the tree. -/
def PrefTree.describes (prefs : Store) (node : PurplePref) : PrefTree → Prop
  | .node name value children =>
    node.name = name ∧ node.value = value ∧
      forestDescribes prefs (prefs.children node.pref) children

def forestDescribes (prefs : Store) : List PurplePref → List PrefTree → Prop
  | [], [] => True
  | node :: nodes, tree :: trees => tree.describes prefs node ∧ forestDescribes prefs nodes trees
  | _, _ => False

end

def Holds (prefs : Store) (forest : List PrefTree) : Prop :=
  forestDescribes prefs (prefs.children root) forest

/-- `%d` -/
def printInt (value : Int32) : Text :=
  if value.toInt < 0 then '-' :: Nat.toDigits 10 value.toInt.natAbs
  else Nat.toDigits 10 value.toInt.natAbs

def typeName : PurplePrefType → Text
  | .none => []
  | .boolean => ['b', 'o', 'o', 'l']
  | .int => ['i', 'n', 't']
  | .string => ['s', 't', 'r', 'i', 'n', 'g']
  | .stringList => ['s', 't', 'r', 'i', 'n', 'g', 'l', 'i', 's', 't']
  | .path => ['p', 'a', 't', 'h']
  | .pathList => ['p', 'a', 't', 'h', 'l', 'i', 's', 't']

def valueAttributes : PrefValue → List (Text × Text)
  | .none => []
  | .boolean boolean =>
    [(typeAttribute, typeName .boolean), (valueAttribute, printInt boolean)]
  | .integer integer => [(typeAttribute, typeName .int), (valueAttribute, printInt integer)]
  | .string string => [(typeAttribute, typeName .string), (valueAttribute, string.getD [])]
  | .stringList _ => [(typeAttribute, typeName .stringList)]
  | .path path => [(typeAttribute, typeName .path), (valueAttribute, path.getD [])]
  | .pathList _ => [(typeAttribute, typeName .pathList)]

def PrefValue.items : PrefValue → List (Option Text)
  | .stringList list => list
  | .pathList list => list
  | _ => []

def itemToXmlnode (item : Option Text) : Element :=
  .mk itemElement [(valueAttribute, item.getD [])] []

mutual

def prefToXmlnode : PrefTree → Element
  | .node name value children =>
    .mk prefElement ((nameAttribute, name) :: valueAttributes value)
      (value.items.map itemToXmlnode ++ prefsToXmlnodes children)

def prefsToXmlnodes : List PrefTree → List Element
  | [] => []
  | tree :: rest => prefToXmlnode tree :: prefsToXmlnodes rest

end

def versionAttribute : Text := ['v', 'e', 'r', 's', 'i', 'o', 'n']

def prefsToXmlnode (forest : List PrefTree) : Element :=
  .mk prefElement [(versionAttribute, ['1']), (nameAttribute, ['/'])] (prefsToXmlnodes forest)

/-- What is reported of a value that `g_markup_escape_text` wrote. -/
def reported (value : Text) : Text := Sax.attributeValue false (value.map Xml.escapePiece)

def reportedAttribute (written : Text × Text) : Text × Text := (written.1, reported written.2)

mutual

def Element.reported : Element → Element
  | .mk name attributes content =>
    .mk name (attributes.map reportedAttribute) (contentReported content)

def contentReported : List Element → List Element
  | [] => []
  | element :: rest => element.reported :: contentReported rest

end

/-- `(int) strtol (text, NULL, 10)` -/
def atoi (text : Text) : Int32 :=
  let text := text.dropWhile Xml.isSpace
  let unsigned := if text.head? = some '-' ∨ text.head? = some '+' then text.tail else text
  let magnitude : Int := Nat.ofDigitChars 10 (unsigned.takeWhile Char.isDigit) 0
  Int32.ofInt (if text.head? = some '-' then max (-2 ^ 63) (-magnitude)
    else min (2 ^ 63 - 1) magnitude)

def anyText : Text → Bool := fun _ => true

def appendItem (value : Option Text) : PrefValue → Option PrefValue
  | .stringList list => some (.stringList (list ++ [value]))
  | .pathList list => some (.pathList (list ++ [value]))
  | _ => none

def applyChange (prefs : Store) : Change → Option Store
  | .item list value => setPref prefs list (appendItem value) (some prefs)
  | .pref name .none _ => purplePrefsAddNone prefs name
  | .pref name .boolean value => purplePrefsSetBool prefs name (atoi (value.getD []))
  | .pref name .int value => purplePrefsSetInt prefs name (atoi (value.getD []))
  | .pref name .string value => purplePrefsSetString anyText prefs name value
  | .pref name .stringList _ => purplePrefsSetStringList anyText prefs name []
  | .pref name .path value => purplePrefsSetPath prefs name value
  | .pref name .pathList _ => purplePrefsSetPathList prefs name []

def applyChanges (prefs : Store) : List Change → Option Store
  | [] => some prefs
  | change :: rest => (applyChange prefs change).bind fun next => applyChanges next rest

def reload (forest : List PrefTree) : Option Store :=
  applyChanges purplePrefsInit (load (prefsToXmlnode forest).reported.events).changes

theorem digit_facts {c : Char} (digit : c.isDigit) :
    Xml.isSpace c = false ∧ c ≠ '-' ∧ c ≠ '+' := by
  have range : 48 ≤ c.toNat ∧ c.toNat ≤ 57 := by
    rw [Char.isDigit, Bool.and_eq_true, decide_eq_true_iff, decide_eq_true_iff] at digit
    exact digit
  refine ⟨?_, ?_, ?_⟩
  · have notBlank : c ≠ ' ' := by
      rintro rfl
      revert range
      decide
    have notControl : ¬c.toNat ≤ 13 := by omega
    simp [Xml.isSpace, notBlank, notControl]
  · rintro rfl
    revert range
    decide
  · rintro rfl
    revert range
    decide

theorem digits_digit (n : Nat) : ∀ c ∈ Nat.toDigits 10 n, c.isDigit := fun _ member =>
  Nat.isDigit_of_mem_toDigits (by decide) (by decide) member

theorem atoi_printInt (value : Int32) : atoi (printInt value) = value := by
  have upper := value.toInt_lt
  have lower := value.le_toInt
  have magnitude : Nat.ofDigitChars 10
      ((Nat.toDigits 10 value.toInt.natAbs).takeWhile Char.isDigit) 0 = value.toInt.natAbs := by
    rw [takeWhile_eq_self_iff.mpr (digits_digit _), Nat.ofDigitChars_ten_toDigits]
  unfold printInt atoi
  by_cases negative : value.toInt < 0
  · have dash : Xml.isSpace '-' = false := by decide
    have exactly : max (-2 ^ 63) (-(value.toInt.natAbs : Int)) = value.toInt := by omega
    simp only [if_pos negative, dropWhile_cons, dash, Bool.false_eq_true, if_false,
      head?_cons, if_true, true_or, tail_cons, magnitude]
    rw [exactly, Int32.ofInt_toInt]
  · obtain ⟨first, rest, digits⟩ :=
      exists_cons_of_ne_nil (@Nat.toDigits_ne_nil value.toInt.natAbs 10)
    obtain ⟨noSpace, noMinus, noPlus⟩ := digit_facts
      (digits_digit value.toInt.natAbs first (by rw [digits]; exact mem_cons_self))
    have whole : (Nat.toDigits 10 value.toInt.natAbs).dropWhile Xml.isSpace =
        Nat.toDigits 10 value.toInt.natAbs := by
      rw [digits, dropWhile_cons, noSpace]
      rfl
    have head : (Nat.toDigits 10 value.toInt.natAbs).head? = some first := by
      rw [digits]
      rfl
    have exactly : min (2 ^ 63 - 1) (value.toInt.natAbs : Int) = value.toInt := by omega
    simp only [if_neg negative, whole, head, Option.some.injEq, noMinus, noPlus, or_self, if_false,
      magnitude]
    rw [exactly, Int32.ofInt_toInt]

theorem reported_eq {text : Text} : reported text = text ↔ Xml.KeepsSpace text :=
  Xml.attributeValue_escaped

theorem reported_keeps (text : Text) : Xml.KeepsSpace (reported text) :=
  Xml.attributeValue_space false (Xml.escaped_refs text)

theorem reported_printInt (value : Int32) : reported (printInt value) = printInt value := by
  rw [reported_eq]
  have digits : Xml.KeepsSpace (Nat.toDigits 10 value.toInt.natAbs) := by
    intro c member
    have noSpace := (digit_facts (digits_digit _ c member)).1
    refine ⟨?_, ?_, ?_⟩ <;>
    · rintro rfl
      revert noSpace
      decide
  unfold printInt
  split
  · intro c member
    rcases mem_cons.mp member with rfl | later
    · decide
    · exact digits c later
  · exact digits

theorem reported_typeName (type : PurplePrefType) : reported (typeName type) = typeName type := by
  cases type <;> decide

theorem attributeValue_mem (afterReturn : Bool) (pieces : List Sax.Piece) :
    ∀ c ∈ Sax.attributeValue afterReturn pieces, c = ' ' ∨ c ∈ pieces.map Xml.pieceChar := by
  induction pieces generalizing afterReturn with
  | nil =>
    intro c member
    cases member
  | cons piece rest ih =>
    intro c member
    cases piece with
    | ref d =>
      rw [Sax.attributeValue] at member
      rcases mem_cons.mp member with rfl | later
      · exact .inr mem_cons_self
      · exact (ih false c later).imp_right (mem_cons_of_mem _)
    | lit d =>
      rw [Sax.attributeValue] at member
      split at member
      · exact (ih false c member).imp_right (mem_cons_of_mem _)
      · rcases mem_cons.mp member with here | later
        · split at here
          · exact .inl here
          · rw [here]
            exact .inr mem_cons_self
        · exact (ih _ c later).imp_right (mem_cons_of_mem _)

theorem reported_plain {name : Text} (plain : '/' ∉ name) : '/' ∉ reported name := by
  intro member
  rcases attributeValue_mem false _ '/' member with blank | inside
  · exact absurd blank (by decide)
  · rw [List.map_map] at inside
    obtain ⟨c, inName, same⟩ := List.mem_map.mp inside
    rw [Function.comp_apply, Xml.pieceChar_escapePiece] at same
    rw [same] at inName
    exact plain inName

def loadedText : PrefValue → Option Text
  | .none => none
  | .boolean boolean => some (printInt boolean)
  | .integer integer => some (printInt integer)
  | .string string => some (reported (string.getD []))
  | .stringList _ => none
  | .path path => some (reported (path.getD []))
  | .pathList _ => none

def itemChange (prefsStack : List Text) (item : Option Text) : Change :=
  .item (itemPath prefsStack) (some (reported (item.getD [])))

mutual

def treeChanges (prefsStack : List Text) : PrefTree → List Change
  | .node name value children =>
    .pref (prefPath prefsStack (reported name)) value.type (loadedText value) ::
      (value.items.map (itemChange (reported name :: prefsStack)) ++
        forestChanges (reported name :: prefsStack) children)

def forestChanges (prefsStack : List Text) : List PrefTree → List Change
  | [] => []
  | tree :: rest => treeChanges prefsStack tree ++ forestChanges prefsStack rest

end

mutual

def PrefTree.Plain : PrefTree → Prop
  | .node name _ children => '/' ∉ name ∧ forestPlain children

def forestPlain : List PrefTree → Prop
  | [] => True
  | tree :: rest => tree.Plain ∧ forestPlain rest

end

theorem typeNamed_typeName {type : PurplePrefType} (some_type : type ≠ .none) :
    typeNamed (typeName type) = some type := by
  cases type with
  | none => exact absurd rfl some_type
  | boolean => decide
  | int => decide
  | string => decide
  | stringList => decide
  | path => decide
  | pathList => decide

theorem parse_pref (name : Text) (value : PrefValue) :
    parseAttributes (((nameAttribute, name) :: valueAttributes value).map reportedAttribute) =
      some
        { prefName := some (reported name), prefType := value.type
          prefValue := loadedText value } := by
  have typeNotName : typeAttribute ≠ nameAttribute := by decide
  have valueNotName : valueAttribute ≠ nameAttribute := by decide
  have valueNotType : valueAttribute ≠ typeAttribute := by decide
  cases value <;>
    simp [parseAttributes, parseAttribute, valueAttributes, reportedAttribute, reported_typeName,
      reported_printInt, typeNamed_typeName, typeNotName, valueNotName, valueNotType,
      loadedText, PrefValue.type]

theorem parse_item (item : Option Text) :
    parseAttributes ([(valueAttribute, item.getD [])].map reportedAttribute) =
      some
        { prefName := none, prefType := .none, prefValue := some (reported (item.getD [])) } := by
  have valueNotName : valueAttribute ≠ nameAttribute := by decide
  have valueNotType : valueAttribute ≠ typeAttribute := by decide
  simp [parseAttributes, parseAttribute, reportedAttribute, valueNotName, valueNotType]

theorem contentReported_append (first second : List Element) :
    contentReported (first ++ second) = contentReported first ++ contentReported second := by
  induction first with
  | nil => rfl
  | cons element rest ih => rw [cons_append, contentReported, contentReported, ih, cons_append]

theorem contentEvents_append (first second : List Element) :
    contentEvents (first ++ second) = contentEvents first ++ contentEvents second := by
  induction first with
  | nil => rfl
  | cons element rest ih =>
    rw [cons_append, contentEvents, contentEvents, ih, append_assoc]

theorem load_items (items : List (Option Text)) (prefsStack : List Text) (changes : List Change) :
    (contentEvents (contentReported (items.map itemToXmlnode))).foldl Loading.handle
        { prefsStack, changes } =
      { prefsStack, changes := changes ++ items.map (itemChange prefsStack) } := by
  have itemNotPref : itemElement ≠ prefElement := by decide
  induction items generalizing changes with
  | nil => simp [contentReported, contentEvents]
  | cons item rest ih =>
    have start : prefsStartElementHandler prefsStack itemElement
        ([(valueAttribute, item.getD [])].map reportedAttribute) =
        (prefsStack, some (itemChange prefsStack item)) := by
      unfold prefsStartElementHandler
      rw [parse_item]
      simp [itemChange]
    rw [map_cons, contentReported, contentEvents, foldl_append, itemToXmlnode,
      Element.reported, Element.events, foldl_cons]
    simp only [contentReported, contentEvents, nil_append, foldl_cons, foldl_nil,
      Loading.handle, start, prefsEndElementHandler, if_neg itemNotPref]
    rw [ih]
    simp

mutual

theorem load_tree (tree : PrefTree) (plain : tree.Plain) (prefsStack : List Text)
    (changes : List Change) :
    (prefToXmlnode tree).reported.events.foldl Loading.handle { prefsStack, changes } =
      { prefsStack, changes := changes ++ treeChanges prefsStack tree } := by
  obtain ⟨name, value, children⟩ := tree
  have notRoot : reported name ≠ ['/'] := by
    intro slash
    have noSlash := reported_plain plain.1
    rw [slash] at noSlash
    exact noSlash mem_cons_self
  have start : prefsStartElementHandler prefsStack prefElement
      (((nameAttribute, name) :: valueAttributes value).map reportedAttribute) =
      (reported name :: prefsStack,
        some (.pref (prefPath prefsStack (reported name)) value.type (loadedText value))) := by
    have prefNotItem : prefElement ≠ itemElement := by decide
    unfold prefsStartElementHandler
    rw [parse_pref]
    simp [prefNotItem, notRoot]
  rw [prefToXmlnode, Element.reported, Element.events, foldl_cons, contentReported_append,
    contentEvents_append, foldl_append, foldl_append]
  simp only [Loading.handle, start, load_items]
  rw [load_forest children plain.2]
  simp [treeChanges, Loading.handle, prefsEndElementHandler]

theorem load_forest (forest : List PrefTree) (plain : forestPlain forest) (prefsStack : List Text)
    (changes : List Change) :
    (contentEvents (contentReported (prefsToXmlnodes forest))).foldl Loading.handle
        { prefsStack, changes } =
      { prefsStack, changes := changes ++ forestChanges prefsStack forest } := by
  match forest with
  | [] => simp [prefsToXmlnodes, contentReported, contentEvents, forestChanges]
  | tree :: rest =>
    rw [prefsToXmlnodes, contentReported, contentEvents, foldl_append,
      load_tree tree plain.1, load_forest rest plain.2, forestChanges, append_assoc]

end

theorem reload_eq {forest : List PrefTree} (plain : forestPlain forest) :
    reload forest = applyChanges purplePrefsInit (forestChanges [] forest) := by
  have start : prefsStartElementHandler [] prefElement
      ([(versionAttribute, ['1']), (nameAttribute, ['/'])].map reportedAttribute) = ([], none) := by
    decide
  unfold reload load
  rw [prefsToXmlnode, Element.reported, Element.events, foldl_cons, foldl_append]
  simp only [Loading.handle, start, Option.toList_none, append_nil]
  rw [load_forest forest plain]
  simp [Loading.handle]

end Purple.Prefs
