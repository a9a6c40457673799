/-
When `xmlnode_from_str` builds the same tree again from what `xmlnode_to_str`
prints of it.
-/

import Mathlib.Data.List.Induction
import Mathlib.Data.List.Nodup
import Purple.XmlPrint

namespace Purple.Xml

open List Sax

def KeepsSpace (value : Text) : Prop := ∀ c ∈ value, c ≠ '\t' ∧ c ≠ '\n' ∧ c ≠ '\r'

mutual

/-- The values of the namespace maps, which are printed as they are, may stand in
apostrophes. -/
def Node.Quotable : Node → Prop
  | .tag tag children =>
    (∀ map, tag.namespaceMap = some map → ∀ entry ∈ map, ∀ c ∈ entry.2, isQuotable c) ∧
      childrenQuotable children
  | .attrib _ => True
  | .data _ => True

def childrenQuotable : List Node → Prop
  | [] => True
  | node :: rest => node.Quotable ∧ childrenQuotable rest

end

/-- What a tag must not have: a namespace that is neither declared on it nor that
of its parent, and white space other than blanks in a value. -/
structure FaithfulTag (parent : Option (Option Text)) (tag : Tag) (children : List Node) : Prop where
  inherited : tag.namespaceMap = none → tag.xmlns = none ∨ parent = some tag.xmlns
  values : ∀ map, tag.namespaceMap = some map → ∀ entry ∈ map, KeepsSpace entry.2
  attribs : ∀ attrib ∈ children.filterMap Node.attrib?, KeepsSpace attrib.data

mutual

def Node.Faithful (parent : Option (Option Text)) : Node → Prop
  | .tag tag children =>
    FaithfulTag parent tag children ∧ childrenFaithful tag.xmlns children
  | .attrib _ => True
  | .data data => '\r' ∉ data

def childrenFaithful (xmlns : Option Text) : List Node → Prop
  | [] => True
  | node :: rest => node.Faithful (some xmlns) ∧ childrenFaithful xmlns rest

end

/-! ### Values -/

def pieceChar : Piece → Char
  | .lit c => c
  | .ref c => c

theorem pieceChar_escapePiece (c : Char) : pieceChar (escapePiece c) = c := by
  rw [escapePiece]
  split <;> rfl

theorem escapePiece_space {c : Char} (space : c = '\t' ∨ c = '\n' ∨ c = '\r') :
    escapePiece c = .lit c := by
  rcases space with rfl | rfl | rfl <;> decide

theorem attributeValue_keeps {pieces : List Piece} (keeps : KeepsSpace (pieces.map pieceChar)) :
    attributeValue false pieces = pieces.map pieceChar := by
  induction pieces with
  | nil => rfl
  | cons piece rest ih =>
    have later := ih fun c member => keeps c (mem_cons_of_mem _ member)
    have here := keeps (pieceChar piece) mem_cons_self
    cases piece with
    | ref c => rw [attributeValue, later, map_cons, pieceChar]
    | lit c =>
      obtain ⟨tab, feed, carriage⟩ := here
      simp only [pieceChar] at tab feed carriage
      simp only [attributeValue, Bool.false_eq_true, false_and, if_false, tab, feed, carriage,
        or_self, decide_false, later, map_cons, pieceChar]

theorem attributeValue_space (afterReturn : Bool) {pieces : List Piece}
    (written : ∀ c, .ref c ∈ pieces → c ≠ '\t' ∧ c ≠ '\n' ∧ c ≠ '\r') :
    KeepsSpace (attributeValue afterReturn pieces) := by
  induction pieces generalizing afterReturn with
  | nil =>
    intro c member
    cases member
  | cons piece rest ih =>
    have later (flag : Bool) := ih flag fun c member => written c (mem_cons_of_mem _ member)
    cases piece with
    | ref c =>
      intro other member
      rw [attributeValue] at member
      rcases mem_cons.mp member with rfl | inside
      · exact written _ mem_cons_self
      · exact later false other inside
    | lit c =>
      intro other member
      rw [attributeValue] at member
      split at member
      · exact later false other member
      · rcases mem_cons.mp member with same | inside
        · split at same
          · rw [same]
            decide
          · rename_i notSpace
            rw [same]
            exact ⟨fun h => notSpace (.inl h), fun h => notSpace (.inr (.inl h)),
              fun h => notSpace (.inr (.inr h))⟩
        · exact later _ other inside

theorem escaped_refs (text : Text) :
    ∀ c, .ref c ∈ text.map escapePiece → c ≠ '\t' ∧ c ≠ '\n' ∧ c ≠ '\r' := by
  intro c member
  obtain ⟨other, -, same⟩ := List.mem_map.mp member
  have char := pieceChar_escapePiece other
  rw [same, pieceChar] at char
  subst char
  refine ⟨?_, ?_, ?_⟩ <;> intro space
  · rw [escapePiece_space (.inl space)] at same
    cases same
  · rw [escapePiece_space (.inr (.inl space))] at same
    cases same
  · rw [escapePiece_space (.inr (.inr space))] at same
    cases same

theorem attributeValue_escaped {text : Text} :
    attributeValue false (text.map escapePiece) = text ↔ KeepsSpace text := by
  have chars : (text.map escapePiece).map pieceChar = text := by
    rw [List.map_map]
    exact (map_congr_left fun c _ => pieceChar_escapePiece c).trans (List.map_id' text)
  constructor
  · intro same
    rw [← same]
    exact attributeValue_space false (escaped_refs text)
  · intro keeps
    rw [attributeValue_keeps (chars.symm ▸ keeps), chars]

theorem attributeValue_raw {text : Text} :
    attributeValue false (text.map .lit) = text ↔ KeepsSpace text := by
  have chars : (text.map Piece.lit).map pieceChar = text := by
    rw [List.map_map]
    exact (map_congr_left fun c _ => rfl).trans (List.map_id' text)
  constructor
  · intro same
    rw [← same]
    refine attributeValue_space false fun c member => ?_
    obtain ⟨other, -, impossible⟩ := List.mem_map.mp member
    cases impossible
  · intro keeps
    rw [attributeValue_keeps (chars.symm ▸ keeps), chars]

theorem expand_refer (text : Text) : expandAmpersands (referAmpersands text) = some text := by
  induction text with
  | nil => rfl
  | cons c rest ih =>
    rw [referAmpersands, flatMap_cons]
    by_cases ampersand : c = '&'
    · rw [if_pos ampersand, ampersand]
      change expandAmpersands ('&' :: '#' :: '3' :: '8' :: ';' :: referAmpersands rest) = _
      rw [expandAmpersands, ih, Option.map_some]
    · rw [if_neg ampersand]
      change expandAmpersands (c :: referAmpersands rest) = _
      rw [expandAmpersands, if_neg ampersand, ih, Option.map_some]
      rintro other rfl
      exact fun _ => ampersand rfl

theorem lookup_eq_of_mem {table : List (Text × Text)} (distinct : (table.map Prod.fst).Nodup)
    {entry : Text × Text} (member : entry ∈ table) : table.lookup entry.1 = some entry.2 := by
  induction table with
  | nil => cases member
  | cons first rest ih =>
    obtain ⟨fresh, distinct⟩ := nodup_cons.mp distinct
    rcases mem_cons.mp member with rfl | later
    · exact lookup_cons_self
    · have different : (entry.1 == first.1) = false := by
        rw [beq_eq_false_iff_ne]
        rintro same
        exact fresh (List.mem_map.mpr ⟨entry, later, same⟩)
      rw [lookup_cons, different]
      exact ih distinct later

theorem lookup_perm {first second : List (Text × Text)} (perm : first.Perm second)
    (distinct : (second.map Prod.fst).Nodup) (key : Text) :
    first.lookup key = second.lookup key := by
  have distinctFirst : (first.map Prod.fst).Nodup := (perm.map Prod.fst).nodup_iff.mpr distinct
  cases found : second.lookup key with
  | none =>
    rw [lookup_eq_none_iff] at found ⊢
    exact fun entry member => found entry (perm.subset member)
  | some value =>
    obtain ⟨front, rest, split, -⟩ := lookup_eq_some_iff.mp found
    have member : (key, value) ∈ first := by
      rw [perm.mem_iff, split]
      exact mem_append_right _ mem_cons_self
    exact lookup_eq_of_mem distinctFirst member

theorem insertNamespace_fresh {map : NamespaceMap} {key : Text}
    (fresh : key ∉ map.map Prod.fst) (value : Text) :
    insertNamespace map key value = map ++ [(key, value)] := by
  rw [insertNamespace, if_neg]
  intro present
  obtain ⟨entry, member, same⟩ := List.any_eq_true.mp present
  exact fresh (List.mem_map.mpr ⟨entry, member, beq_iff_eq.mp same⟩)

theorem namespaceMap_distinct {namespaces : List (Option Text × Option Text)}
    (distinct : ((declared namespaces).map Prod.fst).Nodup) :
    namespaceMap namespaces =
      if namespaces.isEmpty then none else some (declared namespaces) := by
  suffices general : ∀ (rest : List (Option Text × Option Text)) (map : NamespaceMap),
      ((map ++ declared rest).map Prod.fst).Nodup →
      rest.foldl (fun map entry => insertNamespace map (entry.1.getD []) (entry.2.getD [])) map =
        map ++ declared rest by
    rw [namespaceMap, general namespaces [] distinct, nil_append]
  intro rest
  induction rest with
  | nil =>
    intro map _
    exact (append_nil map).symm
  | cons entry rest ih =>
    intro map distinct
    have cons : declared (entry :: rest) =
        [(entry.1.getD [], entry.2.getD [])] ++ declared rest := rfl
    rw [cons, ← append_assoc] at distinct ⊢
    have fresh : entry.1.getD [] ∉ map.map Prod.fst := by
      rw [map_append, nodup_append, map_append, nodup_append] at distinct
      intro inside
      exact distinct.1.2.2 _ inside _ mem_cons_self rfl
    rw [foldl_cons, insertNamespace_fresh fresh]
    exact ih _ distinct

/-! ### The attributes of a tag -/

def isReplacedBy (attrib old : Attrib) : Bool := old.name == attrib.name && old.xmlns == attrib.xmlns

/-- `setAttribFull` on the attributes alone. -/
def setAttrib (attribs : List Attrib) (attrib : Attrib) : List Attrib :=
  attribs.eraseP (isReplacedBy attrib) ++ [attrib]

def collapse (attribs : List Attrib) : List Attrib := attribs.foldl setAttrib []

theorem setAttribFull_map (attribs : List Attrib) (attrib : Attrib) :
    setAttribFull (attribs.map .attrib) attrib = (setAttrib attribs attrib).map .attrib := by
  rw [setAttribFull, setAttrib, map_append, eraseP_map]
  rfl

theorem builtAttribs_collapse (attributes : List SaxAttribute) :
    builtAttribs attributes = (collapse (attributes.map attribOf)).map .attrib := by
  suffices general : ∀ (rest attribs : List Attrib),
      rest.foldl setAttribFull (attribs.map .attrib) =
        (rest.foldl setAttrib attribs).map .attrib from general _ []
  intro rest
  induction rest with
  | nil => exact fun _ => rfl
  | cons attrib rest ih =>
    intro attribs
    rw [foldl_cons, foldl_cons, setAttribFull_map, ih]

theorem filterMap_attribs (attribs : List Attrib) :
    (attribs.map Node.attrib).filterMap Node.attrib? = attribs := by
  induction attribs with
  | nil => rfl
  | cons attrib rest ih => exact congrArg (attrib :: ·) ih

theorem collapse_concat (attribs : List Attrib) (attrib : Attrib) :
    collapse (attribs ++ [attrib]) = setAttrib (collapse attribs) attrib := by
  rw [collapse, foldl_append]
  rfl

theorem collapse_sublist (attribs : List Attrib) : (collapse attribs).Sublist attribs := by
  induction attribs using List.reverseRecOn with
  | nil => exact List.Sublist.refl _
  | append_singleton front last ih =>
    rw [collapse_concat, setAttrib]
    exact (eraseP_sublist.trans ih).append_right _

def DistinctNames (attribs : List Attrib) : Prop := (attribs.map Attrib.name).Nodup

theorem collapse_distinct {attribs : List Attrib} (plain : ∀ attrib ∈ attribs, attrib.xmlns = none) :
    DistinctNames (collapse attribs) := by
  induction attribs using List.reverseRecOn with
  | nil => exact nodup_nil
  | append_singleton front last ih =>
    have frontPlain := fun attrib member => plain attrib (mem_append_left [last] member)
    have distinct := ih frontPlain
    have lastPlain : last.xmlns = none :=
      plain last (mem_append_right front mem_cons_self)
    have inside := fun attrib member => frontPlain attrib ((collapse_sublist front).subset member)
    rw [collapse_concat, setAttrib, DistinctNames, map_append, nodup_append]
    refine ⟨distinct.sublist (eraseP_sublist.map _), nodup_singleton _, ?_⟩
    -- the one attribute of that name has been erased
    rintro first member second isLast rfl
    rw [mem_singleton.mp isLast] at member
    generalize collapse front = attribs at distinct inside member
    induction attribs with
    | nil => cases member
    | cons attrib rest again =>
      obtain ⟨fresh, distinct⟩ := nodup_cons.mp distinct
      have here := inside attrib mem_cons_self
      by_cases same : attrib.name = last.name
      · have matched : isReplacedBy last attrib = true := by
          rw [isReplacedBy, same, here, lastPlain, beq_self_eq_true, beq_self_eq_true,
            Bool.true_and]
        rw [eraseP_cons_of_pos matched] at member
        exact fresh (same ▸ member)
      · have other : ¬isReplacedBy last attrib = true := by
          simp only [isReplacedBy, Bool.and_eq_true, beq_iff_eq]
          exact fun both => same both.1
        rw [eraseP_cons_of_neg other, map_cons] at member
        rcases mem_cons.mp member with named | later
        · exact same named.symm
        · exact again distinct (fun other member => inside other (mem_cons_of_mem _ member))
            later

theorem collapse_of_distinct {attribs : List Attrib} (distinct : DistinctNames attribs) :
    collapse attribs = attribs := by
  induction attribs using List.reverseRecOn with
  | nil => rfl
  | append_singleton front last ih =>
    rw [DistinctNames, map_append, nodup_append] at distinct
    rw [collapse_concat, ih distinct.1, setAttrib, eraseP_of_forall_not]
    intro attrib member matched
    simp only [isReplacedBy, Bool.and_eq_true, beq_iff_eq] at matched
    exact distinct.2.2 _ (List.mem_map.mpr ⟨attrib, member, rfl⟩) _ mem_cons_self matched.1

/-! ### A tag that is printed and read -/

def builtChildren (element : StartElement) (content : List Item) : List Node :=
  builtAttribs element.attributes ++ buildContent content

def keptAttribs (element : StartElement) : List Attrib := collapse (element.attributes.map attribOf)

def againTag (foreach : NamespaceMap → NamespaceMap) (parent : Option (Option Text))
    (scope : Scope) (element : StartElement) (content : List Item) : StartElement :=
  startOf scope (element.nsPrefix, element.name)
    ((printedTag foreach parent (tagOf element) (builtChildren element content)).map
      Printed.attribute)

def againAttribute (attrib : Attrib) : SaxAttribute :=
  { name := attrib.name
    nsPrefix := attrib.nsPrefix
    value := referAmpersands (attributeValue false (attrib.data.map escapePiece)) }

theorem builtChildren_attribs (element : StartElement) (content : List Item) :
    (builtChildren element content).filterMap Node.attrib? = keptAttribs element := by
  rw [builtChildren, filterMap_append, buildContent_attribs, append_nil,
    builtAttribs_collapse, filterMap_attribs, keptAttribs]

section tag

variable {isUri : Text → Bool} {scope scope' : Scope} {foreach : NamespaceMap → NamespaceMap}
  (same : ∀ map, (foreach map).Perm map) {parent : Option (Option Text)} {element : StartElement}
  {content : List Item}

theorem keptAttribs_reported {attrib : Attrib} (member : attrib ∈ keptAttribs element) :
    ∃ reported ∈ element.attributes, attribOf reported = attrib :=
  List.mem_map.mp ((collapse_sublist _).subset member)

theorem keptAttribs_distinct : DistinctNames (keptAttribs element) := by
  apply collapse_distinct
  intro attrib member
  obtain ⟨reported, -, rfl⟩ := List.mem_map.mp member
  rfl

theorem keptAttribs_undeclared (wellFormed : WellFormedTag isUri scope element) {attrib : Attrib}
    (member : attrib ∈ keptAttribs element) :
    declaredPrefix (attrib.nsPrefix, attrib.name) = none := by
  obtain ⟨reported, inside, rfl⟩ := keptAttribs_reported member
  have conforms := wellFormed.attributes reported inside
  simp only [isAttribute, Bool.and_eq_true, Bool.or_eq_true, bne_iff_ne] at conforms
  obtain ⟨⟨⟨-, binds⟩, notXmlns⟩, -⟩ := conforms
  rw [declaredPrefix, attribOf]
  cases hasPrefix : reported.nsPrefix with
  | none =>
    rw [hasPrefix] at notXmlns
    have other := notXmlns.resolve_left Bool.false_ne_true
    rw [if_neg fun bad => other (Prod.mk.inj bad).2, if_neg (by rintro ⟨⟩)]
  | some found =>
    rw [hasPrefix] at binds
    simp only [Scope.binds, Option.all_some, Bool.and_eq_true, bne_iff_ne] at binds
    rw [if_neg (by rintro ⟨⟩), if_neg fun bad => binds.1.2 (Option.some.inj bad)]

theorem filterMap_undeclared (attribs : List Attrib)
    (undeclared : ∀ attrib ∈ attribs, declaredPrefix (attrib.nsPrefix, attrib.name) = none) :
    (attribs.map fun attrib => (printedAttrib attrib).attribute).filterMap namespaceOf = [] ∧
      (attribs.map fun attrib => (printedAttrib attrib).attribute).filterMap attributeOf =
        attribs.map againAttribute := by
  induction attribs with
  | nil => exact ⟨rfl, rfl⟩
  | cons attrib rest ih =>
    have here : declaredPrefix (printedAttrib attrib).attribute.1 = none :=
      undeclared attrib mem_cons_self
    obtain ⟨noNamespace, attributes⟩ := ih fun other member =>
      undeclared other (mem_cons_of_mem _ member)
    constructor
    · rw [map_cons, filterMap_cons_none]
      · exact noNamespace
      · rw [namespaceOf, here, Option.map_none]
    · rw [map_cons, filterMap_cons_some (b := againAttribute attrib), attributes,
        map_cons]
      rw [attributeOf, here]
      rfl

def againEntry (entry : Text × Text) : Text × Text :=
  (entry.1, attributeValue false (entry.2.map .lit))

theorem namespaceOf_entry (entry : Text × Text) : namespaceOf (printedEntry entry).attribute =
    some (if entry.1.isEmpty then none else some entry.1,
      some (attributeValue false (entry.2.map .lit))) := by
  rw [printedEntry]
  split
  · rfl
  · rw [namespaceOf, Printed.attribute, declaredPrefix, if_neg (by rintro ⟨⟩), if_pos rfl,
      Option.map_some]

theorem attributeOf_entry (entry : Text × Text) :
    attributeOf (printedEntry entry).attribute = none := by
  have declares := namespaceOf_entry entry
  rw [namespaceOf] at declares
  obtain ⟨found, isFound, -⟩ := Option.map_eq_some_iff.mp declares
  rw [attributeOf, isFound]
  rfl

theorem readEntries (map : NamespaceMap) :
    declared ((map.map fun entry => (printedEntry entry).attribute).filterMap namespaceOf) =
        map.map againEntry ∧
      (map.map fun entry => (printedEntry entry).attribute).filterMap attributeOf = [] := by
  induction map with
  | nil => exact ⟨rfl, rfl⟩
  | cons entry rest ih =>
    obtain ⟨namespaces, attributes⟩ := ih
    constructor
    · rw [map_cons, filterMap_cons_some (namespaceOf_entry entry), map_cons,
        ← namespaces, declared, map_cons]
      congr 1
      rw [againEntry]
      simp only [Option.getD_some, Prod.mk.injEq, and_true]
      split
      · rename_i empty
        exact (List.isEmpty_iff.mp empty).symm
      · rfl
    · rw [map_cons, filterMap_cons_none (attributeOf_entry entry), attributes]

theorem againTag_attributes (wellFormed : WellFormedTag isUri scope element) :
    (againTag foreach parent scope' element content).attributes =
      (keptAttribs element).map againAttribute := by
  obtain ⟨-, attributes⟩ := filterMap_undeclared (keptAttribs element) fun attrib member => keptAttribs_undeclared wellFormed member
  have front : ((printedNamespaces foreach parent (tagOf element)).map
      Printed.attribute).filterMap attributeOf = [] := by
    rw [printedNamespaces]
    cases (tagOf element).namespaceMap with
    | some map =>
      rw [List.map_map]
      exact (readEntries (foreach map)).2
    | none =>
      cases (tagOf element).xmlns with
      | none => rfl
      | some xmlns =>
        simp only
        split <;> rfl
  simp only [againTag, startOf, printedTag, builtChildren_attribs, map_append,
    filterMap_append, front, nil_append, List.map_map]
  exact attributes

theorem againTag_namespaces (wellFormed : WellFormedTag isUri scope element) :
    (againTag foreach parent scope' element content).namespaces =
      ((printedNamespaces foreach parent (tagOf element)).map
        Printed.attribute).filterMap namespaceOf := by
  obtain ⟨noNamespace, -⟩ := filterMap_undeclared (keptAttribs element) fun attrib member => keptAttribs_undeclared wellFormed member
  have back : (((keptAttribs element).map (Printed.attribute ∘ printedAttrib)).filterMap
      namespaceOf) = [] := noNamespace
  simp only [againTag, startOf, printedTag, builtChildren_attribs, map_append,
    filterMap_append, List.map_map, back, append_nil]

theorem tagOf_namespaceMap (wellFormed : WellFormedTag isUri scope element) :
    (tagOf element).namespaceMap =
      if element.namespaces.isEmpty then none else some (declared element.namespaces) :=
  namespaceMap_distinct wellFormed.distinct

theorem declared_isEmpty (namespaces : List (Option Text × Option Text)) :
    (declared namespaces).isEmpty = namespaces.isEmpty := by
  cases namespaces <;> rfl

variable (scope' foreach parent content) in
/-- What is read of a tag with a namespace map. -/
theorem againTag_declared (wellFormed : WellFormedTag isUri scope element)
    (declares : element.namespaces.isEmpty = false) :
    declared (againTag foreach parent scope' element content).namespaces =
      (foreach (declared element.namespaces)).map againEntry := by
  rw [againTag_namespaces wellFormed, printedNamespaces, tagOf_namespaceMap wellFormed, declares]
  simp only [Bool.false_eq_true, if_false, List.map_map]
  exact (readEntries _).1

variable (scope' foreach parent content) in
/-- What is read of a tag without a namespace map. -/
theorem againTag_undeclared (wellFormed : WellFormedTag isUri scope element)
    (declares : element.namespaces.isEmpty) :
    (againTag foreach parent scope' element content).namespaces.isEmpty ↔
      element.xmlns = none ∨ parent = some element.xmlns := by
  rw [againTag_namespaces wellFormed, printedNamespaces, tagOf_namespaceMap wellFormed, if_pos declares]
  cases hasXmlns : element.xmlns with
  | none => simp only [tagOf, hasXmlns, map_nil, filterMap_nil, isEmpty_nil, true_or]
  | some xmlns =>
    simp only [tagOf, hasXmlns, reduceCtorEq, false_or]
    split
    · rename_i inherits
      simp only [inherits, map_nil, filterMap_nil, isEmpty_nil]
    · rename_i new
      simp only [new, iff_false]
      exact Bool.false_ne_true

def ScopeSame (first second : Scope) : Prop := ∀ key, first.lookup key = second.lookup key

theorem ScopeSame.uri (scopes : ScopeSame scope scope') (nsPrefix : Option Text) :
    Scope.uri scope nsPrefix = Scope.uri scope' nsPrefix := by
  rw [Scope.uri, Scope.uri, scopes]

theorem ScopeSame.binds (scopes : ScopeSame scope scope') (nsPrefix : Option Text) :
    Scope.binds scope nsPrefix = Scope.binds scope' nsPrefix := by
  rw [Scope.binds, Scope.binds, scopes.uri]

def againAttrib (attrib : Attrib) : Attrib :=
  { attrib with data := attributeValue false (attrib.data.map escapePiece) }

theorem startLabel_attribs (element : StartElement) :
    (startLabel element).attribs = keptAttribs element := by
  rw [startLabel, label, builtAttribs_collapse, filterMap_attribs, keptAttribs]

theorem againLabel_attribs (wellFormed : WellFormedTag isUri scope element) :
    (startLabel (againTag foreach parent scope' element content)).attribs =
      (keptAttribs element).map againAttrib := by
  have reread : (keptAttribs element).map (attribOf ∘ againAttribute) =
      (keptAttribs element).map againAttrib := by
    apply map_congr_left
    intro attrib member
    obtain ⟨reported, -, rfl⟩ := keptAttribs_reported member
    rw [Function.comp_apply, attribOf, againAttribute, againAttrib, expand_refer]
    rfl
  rw [startLabel_attribs, keptAttribs, againTag_attributes wellFormed, List.map_map, reread,
    collapse_of_distinct]
  rw [DistinctNames, List.map_map]
  exact keptAttribs_distinct

theorem keptAttribs_valid (wellFormed : WellFormedTag isUri scope element) {attrib : Attrib}
    (member : attrib ∈ keptAttribs element) :
    isNcName attrib.name ∧
      Scope.binds (declared element.namespaces ++ scope) attrib.nsPrefix ∧
      (attrib.nsPrefix.isSome || attrib.name != xmlnsPrefix) ∧ ∀ c ∈ attrib.data, isXmlChar c := by
  obtain ⟨reported, inside, rfl⟩ := keptAttribs_reported member
  have conforms := wellFormed.attributes reported inside
  simp only [isAttribute, Bool.and_eq_true] at conforms
  obtain ⟨⟨⟨name, binds⟩, notXmlns⟩, valid⟩ := conforms
  refine ⟨name, binds, notXmlns, ?_⟩
  rw [attribOf]
  cases expanded : expandAmpersands reported.value with
  | none =>
    rw [expanded] at valid
    cases valid
  | some text =>
    rw [expanded, Option.any_some, List.all_eq_true] at valid
    exact valid

include same

theorem againTag_perm (scope' : Scope) (wellFormed : WellFormedTag isUri scope element)
    (faithful : FaithfulTag parent (tagOf element) (builtChildren element content)) :
    (declared (againTag foreach parent scope' element content).namespaces).Perm
      (declared element.namespaces) := by
  cases declares : element.namespaces.isEmpty with
  | true =>
    have noMap : (tagOf element).namespaceMap = none := by
      rw [tagOf_namespaceMap wellFormed, if_pos declares]
    have none := (againTag_undeclared scope' foreach parent content wellFormed declares).mpr (faithful.inherited noMap)
    rw [List.isEmpty_iff.mp none, List.isEmpty_iff.mp declares]
  | false =>
    have hasMap : (tagOf element).namespaceMap = some (declared element.namespaces) := by
      rw [tagOf_namespaceMap wellFormed, declares]
      rfl
    have kept : (foreach (declared element.namespaces)).map againEntry =
        foreach (declared element.namespaces) := by
      refine (map_congr_left fun entry member => ?_).trans (List.map_id' _)
      have inside := (same _).subset member
      have keeps := faithful.values _ hasMap entry inside
      rw [againEntry, attributeValue_raw.mpr keeps]
    rw [againTag_declared _ _ _ _ wellFormed declares, kept]
    exact same _

theorem againTag_scope (wellFormed : WellFormedTag isUri scope element)
    (faithful : FaithfulTag parent (tagOf element) (builtChildren element content))
    (scopes : ScopeSame scope scope') :
    ScopeSame (declared element.namespaces ++ scope)
      (declared (againTag foreach parent scope' element content).namespaces ++ scope') := by
  intro key
  have perm := againTag_perm same scope' wellFormed faithful
  rw [lookup_append, lookup_append, lookup_perm perm wellFormed.distinct, scopes]

theorem againTag_faithful (wellFormed : WellFormedTag isUri scope element)
    (faithful : FaithfulTag parent (tagOf element) (builtChildren element content))
    (scopes : ScopeSame scope scope') :
    WellFormedTag isUri scope' (againTag foreach parent scope' element content) ∧
      startLabel (againTag foreach parent scope' element content) = startLabel element := by
  have perm := againTag_perm same scope' wellFormed faithful
  have inner := againTag_scope same wellFormed faithful scopes
  have keeps : ∀ attrib ∈ keptAttribs element,
      attributeValue false (attrib.data.map escapePiece) = attrib.data := by
    intro attrib member
    rw [← builtChildren_attribs element content] at member
    exact attributeValue_escaped.mpr (faithful.attribs attrib member)
  have xmlns : (againTag foreach parent scope' element content).xmlns = element.xmlns := by
    rw [wellFormed.xmlns, inner.uri]
    rfl
  have distinct : ((declared (againTag foreach parent scope' element content).namespaces).map
      Prod.fst).Nodup := (perm.map Prod.fst).nodup_iff.mpr wellFormed.distinct
  constructor
  · constructor
    · exact wellFormed.name
    · rw [← inner.binds]
      exact wellFormed.binds
    · rfl
    · intro declaration member
      exact wellFormed.declarations declaration (perm.subset member)
    · exact distinct
    · intro reported member
      rw [againTag_attributes wellFormed] at member
      obtain ⟨attrib, inside, rfl⟩ := List.mem_map.mp member
      obtain ⟨name, binds, notXmlns, valid⟩ := keptAttribs_valid wellFormed inside
      simp only [isAttribute, againAttribute, ← inner.binds, name, binds, notXmlns, keeps attrib inside,
        expand_refer, Option.any_some, Bool.true_and, List.all_eq_true]
      exact valid
    · rw [againTag_attributes wellFormed, List.map_map]
      refine List.Nodup.of_map Prod.snd ?_
      rw [List.map_map]
      exact keptAttribs_distinct
  · have attribs : (startLabel (againTag foreach parent scope' element content)).attribs =
        (startLabel element).attribs := by
      rw [againLabel_attribs wellFormed, startLabel_attribs]
      refine (map_congr_left fun attrib member => ?_).trans (List.map_id' _)
      rw [againAttrib, keeps attrib member]
    have empty : (againTag foreach parent scope' element content).namespaces.isEmpty =
        element.namespaces.isEmpty := by
      rw [← declared_isEmpty, ← declared_isEmpty]
      exact perm.isEmpty_eq
    have namespaces : (startLabel (againTag foreach parent scope' element content)).namespaces =
        (startLabel element).namespaces := by
      simp only [startLabel, label, tagOf, namespaceMap_distinct distinct,
        namespaceMap_distinct wellFormed.distinct, empty]
      split
      · rfl
      · simp only [Option.map_some, Option.some_inj]
        funext key
        exact lookup_perm perm wellFormed.distinct key
    have whole (first second : Label) (name : first.name = second.name)
        (nsPrefix : first.nsPrefix = second.nsPrefix) (xmlns : first.xmlns = second.xmlns)
        (namespaces : first.namespaces = second.namespaces)
        (attribs : first.attribs = second.attribs) : first = second := by
      cases first
      cases second
      simp only [Label.mk.injEq]
      exact ⟨name, nsPrefix, xmlns, namespaces, attribs⟩
    exact whole _ _ rfl rfl xmlns namespaces attribs

theorem faithful_of_label (wellFormed : WellFormedTag isUri scope element)
    (again : startLabel (againTag foreach parent scope' element content) = startLabel element) :
    FaithfulTag parent (tagOf element) (builtChildren element content) := by
  have namespaces : (namespaceMap (againTag foreach parent scope' element content).namespaces).map
      (fun map key => map.lookup key) =
      (namespaceMap element.namespaces).map fun map key => map.lookup key :=
    congrArg Label.namespaces again
  constructor
  · intro noMap
    rw [tagOf_namespaceMap wellFormed] at noMap
    have declares : element.namespaces.isEmpty := by
      by_contra declares
      rw [if_neg declares] at noMap
      cases noMap
    apply (againTag_undeclared scope' foreach parent content wellFormed declares).mp
    rw [List.isEmpty_iff.mp declares] at namespaces
    by_contra more
    rw [namespaceMap, if_neg more] at namespaces
    cases namespaces
  · intro map hasMap entry member
    rw [tagOf_namespaceMap wellFormed] at hasMap
    cases declares : element.namespaces.isEmpty with
    | true =>
      rw [declares] at hasMap
      cases hasMap
    | false =>
      rw [declares] at hasMap
      cases hasMap
      have read := againTag_declared scope' foreach parent content wellFormed declares
      have keys : ((declared (againTag foreach parent scope' element content).namespaces).map
          Prod.fst).Nodup := by
        rw [read, List.map_map]
        exact ((same _).map Prod.fst).nodup_iff.mpr wellFormed.distinct
      have inside : againEntry entry ∈
          declared (againTag foreach parent scope' element content).namespaces := by
        rw [read]
        exact List.mem_map.mpr ⟨entry, (same _).mem_iff.mpr member, rfl⟩
      have more : (againTag foreach parent scope' element content).namespaces.isEmpty = false := by
        rw [← declared_isEmpty]
        cases list : declared (againTag foreach parent scope' element content).namespaces with
        | nil =>
          rw [list] at inside
          cases inside
        | cons _ _ => rfl
      rw [namespaceMap_distinct keys, namespaceMap_distinct wellFormed.distinct, more,
        declares] at namespaces
      have looked := congrFun (Option.some.inj namespaces) entry.1
      have first := lookup_eq_of_mem keys inside
      have second := lookup_eq_of_mem wellFormed.distinct member
      have value := (first.symm.trans looked).trans second
      exact attributeValue_raw.mp (Option.some.inj value)
  · intro attrib member
    rw [builtChildren_attribs] at member
    have attribs := congrArg Label.attribs again
    rw [againLabel_attribs wellFormed, startLabel_attribs] at attribs
    have fixed : againAttrib attrib = attrib :=
      map_inj_left.mp (attribs.trans (List.map_id _).symm) attrib member
    exact attributeValue_escaped.mp (congrArg Attrib.data fixed)

end tag

/-! ### Content that is printed and read -/

theorem childrenDoc_append (foreach : NamespaceMap → NamespaceMap) (xmlns : Option Text)
    (front rest : List Node) :
    childrenDoc foreach xmlns (front ++ rest) =
      childrenDoc foreach xmlns front ++ childrenDoc foreach xmlns rest := by
  induction front with
  | nil => rfl
  | cons node front ih => rw [cons_append, childrenDoc, childrenDoc, ih, append_assoc]

theorem childrenFaithful_append (xmlns : Option Text) (front rest : List Node) :
    childrenFaithful xmlns (front ++ rest) ↔
      childrenFaithful xmlns front ∧ childrenFaithful xmlns rest := by
  induction front with
  | nil => simp only [nil_append, childrenFaithful, true_and]
  | cons node front ih => rw [cons_append, childrenFaithful, childrenFaithful, ih, and_assoc]

theorem childrenQuotable_append (front rest : List Node) :
    childrenQuotable (front ++ rest) ↔ childrenQuotable front ∧ childrenQuotable rest := by
  induction front with
  | nil => simp only [nil_append, childrenQuotable, true_and]
  | cons node front ih => rw [cons_append, childrenQuotable, childrenQuotable, ih, and_assoc]

theorem attribs_aside {nodes : List Node} (attribs : ∀ node ∈ nodes, node.isAttrib)
    (foreach : NamespaceMap → NamespaceMap) (xmlns : Option Text) :
    childrenDoc foreach xmlns nodes = [] ∧ childrenFaithful xmlns nodes ∧ childrenQuotable nodes := by
  induction nodes with
  | nil => exact ⟨rfl, trivial, trivial⟩
  | cons node rest ih =>
    obtain ⟨docs, faithful, quotable⟩ := ih fun other member =>
      attribs other (mem_cons_of_mem _ member)
    cases node with
    | attrib attrib =>
      rw [childrenDoc, docItems, nil_append]
      exact ⟨docs, ⟨trivial, faithful⟩, trivial, quotable⟩
    | tag tag children => cases attribs _ mem_cons_self
    | data data => cases attribs _ mem_cons_self

theorem contentShape_append (front rest : List Item) :
    contentShape (front ++ rest) = contentShape front ++ contentShape rest := by
  induction front with
  | nil => rfl
  | cons item front ih => rw [cons_append, contentShape, contentShape, ih, append_assoc]

theorem contentShape_chars (data : Text) :
    contentShape (data.map fun c => .text [c]) = data.map .char := by
  induction data with
  | nil => rfl
  | cons c rest ih =>
    rw [map_cons, contentShape, Item.shape, ih]
    rfl

section content

variable {isUri : Text → Bool} {foreach : NamespaceMap → NamespaceMap}

theorem contentConforms_chars {scope : Scope} {data : Text} (valid : data.all isXmlChar)
    {rest : List Item} (later : contentConforms isUri scope rest) :
    contentConforms isUri scope ((data.map fun c => .text [c]) ++ rest) := by
  induction data with
  | nil => exact later
  | cons c data ih =>
    rw [all_cons, Bool.and_eq_true] at valid
    rw [map_cons, cons_append, contentConforms, Item.conforms, ih valid.2, Bool.and_true,
      all_cons, valid.1]
    rfl

theorem infosetContent_data (scope : Scope) {data : Text} (feeds : '\r' ∉ data)
    (docs : List DocItem) :
    infosetContent scope false ((data.map fun c => .piece (escapePiece c)) ++ docs) =
      (data.map fun c => .text [c]) ++ infosetContent scope false docs := by
  induction data with
  | nil => rfl
  | cons c rest ih =>
    have later := ih fun member => feeds (mem_cons_of_mem _ member)
    have here : c ≠ '\r' := fun bad => feeds (bad ▸ mem_cons_self)
    rw [map_cons, cons_append, map_cons, cons_append, escapePiece]
    split
    · simp only [infosetContent, Bool.false_eq_true, false_and, if_false, if_neg here, later,
        decide_eq_false here]
    · rw [infosetContent, later]

def againDoc (foreach : NamespaceMap → NamespaceMap) (parent : Option (Option Text))
    (element : StartElement) (content : List Item) : DocItem :=
  .element (element.nsPrefix, element.name)
    ((printedTag foreach parent (tagOf element) (builtChildren element content)).map
      Printed.attribute)
    (childrenDoc foreach element.xmlns (buildContent content))

theorem docItems_built (parent : Option (Option Text)) (element : StartElement)
    (content : List Item) :
    docItems foreach parent (.tag (tagOf element) (builtChildren element content)) =
      [againDoc foreach parent element content] := by
  rw [docItems, builtChildren, childrenDoc_append,
    (attribs_aside (builtAttribs_attribs _) foreach _).1, nil_append, againDoc, builtChildren]
  rfl

theorem infoset_again (scope : Scope) (parent : Option (Option Text)) (element : StartElement)
    (content : List Item) :
    infoset scope (againDoc foreach parent element content) =
      .element (againTag foreach parent scope element content)
        (infosetContent
          (declared (againTag foreach parent scope element content).namespaces ++ scope) false
          (childrenDoc foreach element.xmlns (buildContent content))) := by
  rw [againDoc, infoset]
  rfl

theorem childrenDoc_text (xmlns : Option Text) (chunk : Text) (rest : List Item) :
    childrenDoc foreach xmlns (buildContent (.text chunk :: rest)) =
      (chunk.map fun c => .piece (escapePiece c)) ++
        childrenDoc foreach xmlns (buildContent rest) := by
  rw [buildContent, childrenDoc_append, buildItem]
  split
  · rename_i empty
    rw [List.isEmpty_iff.mp empty]
    rfl
  · rw [childrenDoc, docItems, childrenDoc, append_nil]

theorem childrenDoc_element (xmlns : Option Text) (element : StartElement)
    (inside rest : List Item) :
    childrenDoc foreach xmlns (buildContent (.element element inside :: rest)) =
      againDoc foreach (some xmlns) element inside ::
        childrenDoc foreach xmlns (buildContent rest) := by
  rw [buildContent, childrenDoc_append, buildItem, ← builtChildren, childrenDoc,
    docItems_built, childrenDoc, append_nil]
  rfl

theorem infosetContent_again (scope : Scope) (afterReturn : Bool) (parent : Option (Option Text))
    (element : StartElement) (inside : List Item) (later : List DocItem) :
    infosetContent scope afterReturn (againDoc foreach parent element inside :: later) =
      infoset scope (againDoc foreach parent element inside) ::
        infosetContent scope false later := by
  rw [againDoc, infosetContent]

def ReadAgain (isUri : Text → Bool) (foreach : NamespaceMap → NamespaceMap) (content : List Item) :
    Prop :=
  ∀ (scope scope' : Scope) (xmlns : Option Text), contentConforms isUri scope content →
    ScopeSame scope scope' → childrenFaithful xmlns (buildContent content) →
    contentConforms isUri scope'
        (infosetContent scope' false (childrenDoc foreach xmlns (buildContent content))) ∧
      relabelAll startLabel (contentShape
        (infosetContent scope' false (childrenDoc foreach xmlns (buildContent content)))) =
        relabelAll startLabel (contentShape content)

theorem element_again (same : ∀ map, (foreach map).Perm map) {scope scope' : Scope}
    {parent : Option (Option Text)} {element : StartElement} {content : List Item}
    (content_again : ReadAgain isUri foreach content)
    (conforms : (Item.element element content).conforms isUri scope)
    (scopes : ScopeSame scope scope')
    (faithful : (Node.tag (tagOf element) (builtChildren element content)).Faithful parent) :
    (infoset scope' (againDoc foreach parent element content)).conforms isUri scope' ∧
      relabelAll startLabel (infoset scope' (againDoc foreach parent element content)).shape =
        relabelAll startLabel (Item.element element content).shape := by
  rw [Item.conforms, Bool.and_eq_true, conforms_iff] at conforms
  rw [Node.Faithful, builtChildren, childrenFaithful_append, ← builtChildren] at faithful
  obtain ⟨here, below⟩ := conforms
  obtain ⟨faithfulTag, -, faithfulContent⟩ := faithful
  obtain ⟨wellFormed, sameLabel⟩ := againTag_faithful same here faithfulTag scopes
  have inner := againTag_scope same here faithfulTag scopes
  obtain ⟨conformsContent, sameContent⟩ :=
    content_again _ _ element.xmlns below inner faithfulContent
  rw [infoset_again]
  constructor
  · rw [Item.conforms, Bool.and_eq_true, conforms_iff]
    exact ⟨wellFormed, conformsContent⟩
  · simp only [Item.shape, relabelAll, relabel, sameLabel, sameContent]

theorem content_again (same : ∀ map, (foreach map).Perm map) (content : List Item) :
    ReadAgain isUri foreach content := by
  intro scope scope' xmlns conforms scopes faithful
  match content with
  | [] =>
    rw [buildContent, childrenDoc, infosetContent]
    exact ⟨rfl, rfl⟩
  | .text chunk :: rest =>
    rw [contentConforms, Bool.and_eq_true, Item.conforms] at conforms
    rw [buildContent, childrenFaithful_append] at faithful
    obtain ⟨later, sameLater⟩ := content_again same rest scope scope' xmlns conforms.2 scopes faithful.2
    have feeds : '\r' ∉ chunk := by
      rw [buildItem] at faithful
      split at faithful
      · rename_i empty
        rw [List.isEmpty_iff.mp empty]
        exact not_mem_nil
      · rw [childrenFaithful, Node.Faithful] at faithful
        exact faithful.1.1
    rw [childrenDoc_text, infosetContent_data _ feeds]
    constructor
    · exact contentConforms_chars conforms.1 later
    · rw [contentShape_append, relabelAll_append, sameLater, contentShape_chars, contentShape,
        Item.shape, relabelAll_append]
  | .element element inside :: rest =>
    rw [contentConforms, Bool.and_eq_true] at conforms
    rw [buildContent, childrenFaithful_append, buildItem, childrenFaithful, ← builtChildren] at faithful
    obtain ⟨⟨here, -⟩, faithfulRest⟩ := faithful
    obtain ⟨conformsHere, sameHere⟩ :=
      element_again same (content_again same inside) conforms.1 scopes here
    obtain ⟨later, sameLater⟩ := content_again same rest scope scope' xmlns conforms.2 scopes faithfulRest
    rw [childrenDoc_element, infosetContent_again]
    constructor
    · rw [contentConforms, conformsHere, later]
      rfl
    · rw [contentShape, contentShape, relabelAll_append, relabelAll_append, sameHere, sameLater]

/-! ### What must be faithful -/

def isNode {Label : Type} : Shape Label → Bool
  | .char _ => false
  | .node _ _ => true

theorem filter_chars {Label : Type} (data : Text) :
    (data.map (@Shape.char Label)).filter isNode = [] := by
  induction data with
  | nil => rfl
  | cons c rest ih => exact ih

theorem char_mem_relabelAll {First Second : Type} (change : First → Second) (c : Char)
    (list : List (Shape First)) : .char c ∈ relabelAll change list ↔ .char c ∈ list := by
  induction list with
  | nil => simp only [relabelAll, not_mem_nil]
  | cons shape rest ih =>
    rw [relabelAll, mem_cons, mem_cons, ih]
    cases shape with
    | char other => rw [relabel, Shape.char.injEq, Shape.char.injEq]
    | node label children => simp only [relabel, reduceCtorEq]

def RefsPlain (docs : List DocItem) : Prop := ∀ c, .piece (.ref c) ∈ docs → c ≠ '\r'

theorem refsPlain_children (xmlns : Option Text) (nodes : List Node) :
    RefsPlain (childrenDoc foreach xmlns nodes) := by
  induction nodes with
  | nil =>
    intro c member
    cases member
  | cons node rest ih =>
    intro c member
    rw [childrenDoc] at member
    rcases mem_append.mp member with here | later
    · cases node with
      | tag tag children =>
        rw [docItems] at here
        cases mem_singleton.mp here
      | attrib attrib => cases here
      | data data =>
        rw [docItems] at here
        obtain ⟨other, inside, spelled⟩ := List.mem_map.mp here
        have reference : .ref c ∈ data.map escapePiece :=
          List.mem_map.mpr ⟨other, inside, DocItem.piece.inj spelled⟩
        exact (escaped_refs data c reference).2.2
    · exact ih c later

theorem noReturn (scope : Scope) (afterReturn : Bool) {docs : List DocItem}
    (plain : RefsPlain docs) :
    .char '\r' ∉ contentShape (infosetContent scope afterReturn docs) := by
  induction docs generalizing afterReturn with
  | nil => exact not_mem_nil
  | cons doc rest ih =>
    have later (flag : Bool) := ih flag fun c member => plain c (mem_cons_of_mem _ member)
    cases doc with
    | element name attributes content =>
      rw [infosetContent, infoset, contentShape, Item.shape]
      intro member
      rcases mem_append.mp member with here | there
      · cases mem_singleton.mp here
      · exact later false there
    | piece piece =>
      cases piece with
      | ref c =>
        rw [infosetContent, contentShape, Item.shape]
        intro member
        rcases mem_append.mp member with here | there
        · cases mem_singleton.mp here
          exact plain _ mem_cons_self rfl
        · exact later false there
      | lit c =>
        rw [infosetContent]
        split
        · exact later false
        · rw [contentShape, Item.shape]
          intro member
          rcases mem_append.mp member with here | there
          · split at here
            · cases mem_singleton.mp here
            · rename_i other
              cases mem_singleton.mp here
              exact other rfl
          · exact later _ there

theorem nodes_behind_data (scope : Scope) (data : Text) (docs : List DocItem) (afterReturn : Bool) :
    ∃ flag, (contentShape (infosetContent scope afterReturn
        ((data.map fun c => .piece (escapePiece c)) ++ docs))).filter isNode =
      (contentShape (infosetContent scope flag docs)).filter isNode := by
  induction data generalizing afterReturn with
  | nil => exact ⟨afterReturn, rfl⟩
  | cons c rest ih =>
    rw [map_cons, cons_append, escapePiece]
    split
    · rw [infosetContent]
      split
      · exact ih false
      · exact ih _
    · rw [infosetContent]
      exact ih false

theorem filter_relabelAll {First Second : Type} (change : First → Second)
    (list : List (Shape First)) :
    (relabelAll change list).filter isNode = relabelAll change (list.filter isNode) := by
  induction list with
  | nil => rfl
  | cons shape rest ih =>
    cases shape with
    | char c => exact ih
    | node label children => exact congrArg (_ :: ·) ih

/-- Content that is read with its own elements and has no carriage return is faithful. -/
def FaithfulWhenRead (isUri : Text → Bool) (foreach : NamespaceMap → NamespaceMap)
    (content : List Item) : Prop :=
  ∀ (scope scope' : Scope) (xmlns : Option Text) (afterReturn : Bool),
    contentConforms isUri scope content →
    relabelAll startLabel ((contentShape (infosetContent scope' afterReturn
        (childrenDoc foreach xmlns (buildContent content)))).filter isNode) =
      relabelAll startLabel ((contentShape content).filter isNode) →
    .char '\r' ∉ contentShape content → childrenFaithful xmlns (buildContent content)

theorem faithful_of_element (same : ∀ map, (foreach map).Perm map) {scope scope' : Scope}
    {parent : Option (Option Text)} {element : StartElement} {content : List Item}
    (faithful_of_content : FaithfulWhenRead isUri foreach content)
    (conforms : (Item.element element content).conforms isUri scope)
    (again : relabelAll startLabel (infoset scope' (againDoc foreach parent element content)).shape =
      relabelAll startLabel (Item.element element content).shape) :
    (Node.tag (tagOf element) (builtChildren element content)).Faithful parent := by
  rw [Item.conforms, Bool.and_eq_true, conforms_iff] at conforms
  simp only [infoset_again, Item.shape, relabelAll, relabel, List.cons.injEq, Shape.node.injEq,
    and_true] at again
  obtain ⟨sameLabel, sameContent⟩ := again
  have below := faithful_of_content _
    (declared (againTag foreach parent scope' element content).namespaces ++ scope') element.xmlns
    false conforms.2
    (by rw [← filter_relabelAll, ← filter_relabelAll, sameContent])
    (by
      rw [← char_mem_relabelAll startLabel, ← sameContent, char_mem_relabelAll]
      exact noReturn _ _ (refsPlain_children _ _))
  rw [Node.Faithful, builtChildren, childrenFaithful_append, ← builtChildren]
  exact ⟨faithful_of_label same conforms.1 sameLabel,
    (attribs_aside (builtAttribs_attribs _) foreach _).2.1, below⟩

theorem faithful_of_content (same : ∀ map, (foreach map).Perm map) (content : List Item) :
    FaithfulWhenRead isUri foreach content := by
  intro scope scope' xmlns afterReturn conforms again feeds
  match content with
  | [] => trivial
  | .text chunk :: rest =>
    rw [contentConforms, Bool.and_eq_true] at conforms
    rw [contentShape, Item.shape] at feeds
    obtain ⟨flag, behind⟩ := nodes_behind_data scope' chunk
      (childrenDoc foreach xmlns (buildContent rest)) afterReturn
    rw [childrenDoc_text, behind, contentShape, Item.shape, filter_append, filter_chars,
      nil_append] at again
    have later := faithful_of_content same rest scope scope' xmlns flag conforms.2 again
      fun member => feeds (mem_append_right _ member)
    rw [buildContent, childrenFaithful_append, buildItem]
    refine ⟨?_, later⟩
    split
    · trivial
    · refine ⟨fun member => feeds (mem_append_left _ ?_), trivial⟩
      exact List.mem_map.mpr ⟨_, member, rfl⟩
  | .element element inside :: rest =>
    rw [contentConforms, Bool.and_eq_true] at conforms
    have elementShape : (infoset scope' (againDoc foreach (some xmlns) element inside)).shape.filter
        isNode = (infoset scope' (againDoc foreach (some xmlns) element inside)).shape := by
      rw [infoset_again]
      rfl
    have itemShape : (Item.element element inside).shape.filter isNode =
        (Item.element element inside).shape := rfl
    rw [childrenDoc_element, infosetContent_again, contentShape, contentShape, filter_append, filter_append,
      elementShape, itemShape, relabelAll_append, relabelAll_append] at again
    have sameLength : (relabelAll startLabel
        (infoset scope' (againDoc foreach (some xmlns) element inside)).shape).length =
        (relabelAll startLabel (Item.element element inside).shape).length := by
      rw [infoset_again]
      rfl
    obtain ⟨head, tail⟩ := append_inj again sameLength
    rw [contentShape] at feeds
    have here := faithful_of_element same (faithful_of_content same inside) conforms.1 head
    have later := faithful_of_content same rest scope scope' xmlns false conforms.2 tail
      fun member => feeds (mem_append_right _ member)
    rw [buildContent, childrenFaithful_append, buildItem]
    exact ⟨⟨here, trivial⟩, later⟩

end content

end Purple.Xml
