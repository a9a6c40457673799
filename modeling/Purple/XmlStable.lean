/-
Reparse stability: a tree from `xmlnode_from_str` that is printed and parsed
again, under any conforming parser and any order of the namespace maps.
-/

import Purple.XmlReparse

namespace Purple.Xml

open List Sax

/-- What is printed of the tree is well formed, and the same tree is built of it. -/
def Reparses (parse : Text → SaxRun) (foreach : NamespaceMap → NamespaceMap) (node : Node) : Prop :=
  (parse (xmlnodeToStr foreach node)).Accepted ∧
    ∃ again, xmlnodeFromStr parse (xmlnodeToStr foreach node) = some again ∧
      again.shape = node.shape

section printable

variable {isUri : Text → Bool}

def ScopeValid (scope : Scope) : Prop := ∀ entry ∈ scope, ∀ c ∈ entry.2, isXmlChar c

theorem scopeValid_inner {scope : Scope} {element : StartElement}
    (wellFormed : WellFormedTag isUri scope element) (valid : ScopeValid scope) :
    ScopeValid (declared element.namespaces ++ scope) := by
  intro entry member
  rcases mem_append.mp member with here | outside
  · have declaration := wellFormed.declarations entry here
    simp only [isDeclaration, Bool.and_eq_true, List.all_eq_true] at declaration
    exact declaration.1.1.2
  · exact valid entry outside

theorem uri_valid {scope : Scope} (valid : ScopeValid scope) {nsPrefix : Option Text} {uri : Text}
    (found : Scope.uri scope nsPrefix = some uri) : ∀ c ∈ uri, isXmlChar c := by
  rw [Scope.uri] at found
  split at found
  · cases found
    exact List.all_eq_true.mp (by decide)
  · obtain ⟨isEntry, -⟩ := Option.filter_eq_some_iff.mp found
    obtain ⟨front, rest, split, -⟩ := lookup_eq_some_iff.mp isEntry
    refine valid (nsPrefix.getD [], uri) ?_
    rw [split]
    exact mem_append_right _ mem_cons_self

theorem namePrefix_of_binds {scope : Scope} {nsPrefix : Option Text}
    (binds : Scope.binds scope nsPrefix) :
    namePrefix nsPrefix ∧ nsPrefix ≠ some xmlnsPrefix := by
  cases nsPrefix with
  | none =>
    constructor
    · intro found impossible
      cases impossible
    · intro impossible
      cases impossible
  | some found =>
    simp only [Scope.binds, Option.all_some, Bool.and_eq_true, bne_iff_ne] at binds
    constructor
    · rintro _ ⟨rfl⟩
      exact binds.1.1
    · intro same
      exact binds.1.2 (Option.some.inj same)

theorem printableTag_of_conforms {scope : Scope} {element : StartElement} {content : List Item}
    (wellFormed : WellFormedTag isUri scope element) (valid : ScopeValid scope)
    (quotable : ∀ map, (tagOf element).namespaceMap = some map → ∀ entry ∈ map, ∀ c ∈ entry.2,
      isQuotable c) : PrintableTag (tagOf element) (builtChildren element content) := by
  constructor
  · exact wellFormed.name
  · exact (namePrefix_of_binds wellFormed.binds).1
  · intro xmlns hasXmlns
    have found : Scope.uri (declared element.namespaces ++ scope) element.nsPrefix = some xmlns := by
      rw [← wellFormed.xmlns]
      exact hasXmlns
    exact uri_valid (scopeValid_inner wellFormed valid) found
  · intro map hasMap entry member
    rw [tagOf_namespaceMap wellFormed] at hasMap
    split at hasMap
    · cases hasMap
    · cases hasMap
      have declaration := wellFormed.declarations entry member
      simp only [isDeclaration, Bool.and_eq_true, Bool.or_eq_true, bne_iff_ne] at declaration
      rcases declaration.1.1.1.1 with empty | ⟨⟨⟨name, notXml⟩, -⟩, -⟩
      · exact Or.inl (List.isEmpty_iff.mp empty)
      · exact Or.inr ⟨name, notXml⟩
  · exact quotable
  · intro attrib member
    rw [builtChildren_attribs] at member
    obtain ⟨name, binds, -, data⟩ := keptAttribs_valid wellFormed member
    obtain ⟨isPrefix, notXmlns⟩ := namePrefix_of_binds binds
    exact ⟨name, isPrefix, fun bad => notXmlns (Prod.mk.inj bad).1, data⟩

theorem childrenPrintable_append (front rest : List Node) :
    childrenPrintable (front ++ rest) ↔ childrenPrintable front ∧ childrenPrintable rest := by
  induction front with
  | nil => simp only [nil_append, childrenPrintable, true_and]
  | cons node front ih => rw [cons_append, childrenPrintable, childrenPrintable, ih, and_assoc]

theorem childrenPrintable_attribs {nodes : List Node} (attribs : ∀ node ∈ nodes, node.isAttrib) :
    childrenPrintable nodes := by
  induction nodes with
  | nil => trivial
  | cons node rest ih =>
    refine ⟨?_, ih fun other member => attribs other (mem_cons_of_mem _ member)⟩
    cases node with
    | attrib attrib => trivial
    | tag tag children => cases attribs _ mem_cons_self
    | data data => cases attribs _ mem_cons_self

theorem printable_of_conforms (scope : Scope) (valid : ScopeValid scope) (content : List Item)
    (conforms : contentConforms isUri scope content) (quotable : childrenQuotable (buildContent content)) :
    childrenPrintable (buildContent content) := by
  match content with
  | [] => trivial
  | .text chunk :: rest =>
    rw [contentConforms, Bool.and_eq_true, Item.conforms, List.all_eq_true] at conforms
    rw [buildContent, childrenQuotable_append] at quotable
    rw [buildContent, childrenPrintable_append, buildItem]
    refine ⟨?_, printable_of_conforms scope valid rest conforms.2 quotable.2⟩
    split
    · trivial
    · exact ⟨conforms.1, trivial⟩
  | .element element inside :: rest =>
    rw [contentConforms, Bool.and_eq_true, Item.conforms, Bool.and_eq_true, conforms_iff] at conforms
    obtain ⟨⟨wellFormed, below⟩, later⟩ := conforms
    rw [buildContent, childrenQuotable_append, buildItem, childrenQuotable, Node.Quotable,
      childrenQuotable_append] at quotable
    obtain ⟨⟨⟨values, -, quotableInside⟩, -⟩, quotableRest⟩ := quotable
    rw [buildContent, childrenPrintable_append, buildItem, childrenPrintable, Node.Printable,
      childrenPrintable_append, ← builtChildren]
    exact ⟨⟨⟨printableTag_of_conforms wellFormed valid values,
      childrenPrintable_attribs (builtAttribs_attribs _),
      printable_of_conforms _ (scopeValid_inner wellFormed valid) inside below quotableInside⟩,
      trivial⟩, printable_of_conforms scope valid rest later quotableRest⟩

end printable

/-- A tree whose namespace maps can stand in apostrophes parses again to itself
if and only if it is faithful. -/
theorem xmlnode_reparses {isUri : Text → Bool} {parse : Text → SaxRun}
    (conforming : Conforming isUri parse) {foreach : NamespaceMap → NamespaceMap}
    (same : ∀ map, (foreach map).Perm map) {text : Text} {node : Node}
    (built : xmlnodeFromStr parse text = some node) :
    (node.Quotable ∧ node.Faithful none → Reparses parse foreach node) ∧
      (node.Quotable → Reparses parse foreach node → node.Faithful none) := by
  obtain ⟨element, content, conforms, events⟩ := conforming.reported text (accepted_of_fromStr built)
  have isNode := fromStr_events (accepted_of_fromStr built) conforms events
  rw [built] at isNode
  cases isNode
  rw [← builtChildren]
  have nodeShape : (Node.tag (tagOf element) (builtChildren element content)).shape =
      relabelAll startLabel (Item.element element content).shape := by
    rw [← buildItem_shape, buildItem, childrenShape, childrenShape, append_nil]
    rfl
  -- what a conforming parser makes of the printed text
  have read (quotable : (Node.tag (tagOf element) (builtChildren element content)).Quotable) :
      readDocument (xmlnodeToStr foreach (.tag (tagOf element) (builtChildren element content))) =
        some (againDoc foreach none element content) := by
    have whole := conforms
    rw [Item.conforms, Bool.and_eq_true, conforms_iff] at whole
    rw [Node.Quotable, builtChildren, childrenQuotable_append] at quotable
    have printable : (Node.tag (tagOf element) (builtChildren element content)).Printable := by
      rw [Node.Printable]
      refine ⟨printableTag_of_conforms whole.1 ?_ quotable.1, ?_⟩
      · intro entry member
        cases member
      · rw [builtChildren, childrenPrintable_append]
        refine ⟨childrenPrintable_attribs (builtAttribs_attribs _), ?_⟩
        apply printable_of_conforms _ _ content whole.2 quotable.2.2
        apply scopeValid_inner whole.1
        intro entry member
        cases member
    rw [readDocument_toStr same printable, againDoc]
    congr 2
    rw [builtChildren, childrenDoc_append, (attribs_aside (builtAttribs_attribs _) foreach _).1]
    rfl
  constructor
  · rintro ⟨quotable, faithful⟩
    obtain ⟨conformsAgain, sameShape⟩ := element_again same (content_again same content) conforms
      (fun _ => rfl) faithful
    obtain ⟨accepted, tag, content1, conforms1, events1, shape1⟩ :=
      conforming.plain _ _ (read quotable) conformsAgain
    refine ⟨accepted, _, fromStr_events accepted conforms1 events1, ?_⟩
    rw [nodeShape, ← sameShape, ← shape1, ← buildItem_shape, buildItem, childrenShape,
      childrenShape, append_nil]
  · rintro quotable ⟨accepted, again, builtAgain, sameShape⟩
    have conformsAgain : (infoset [] (againDoc foreach none element content)).conforms isUri [] := by
      by_contra malformed
      exact conforming.malformed _ _ (read quotable) malformed accepted
    obtain ⟨-, tag, content1, conforms1, events1, shape1⟩ :=
      conforming.plain _ _ (read quotable) conformsAgain
    rw [fromStr_events accepted conforms1 events1] at builtAgain
    cases builtAgain
    apply faithful_of_element same (faithful_of_content same content) conforms
    rw [← nodeShape, ← sameShape, ← shape1, ← buildItem_shape, buildItem, childrenShape,
      childrenShape, append_nil]

def everyUri : Text → Bool := fun _ => true

/-- `<a xmlns='u' k='v'>t<b/></a>` -/
def steadyText : Text :=
  ['<', 'a', ' ', 'x', 'm', 'l', 'n', 's', '=', '\'', 'u', '\'', ' ', 'k', '=', '\'', 'v', '\'', '>',
    't', '<', 'b', '/', '>', '<', '/', 'a', '>']

def steadyNode : Node :=
  .tag { name := ['a'], nsPrefix := none, xmlns := some ['u'], namespaceMap := some [([], ['u'])] }
    [.attrib { name := ['k'], nsPrefix := none, xmlns := none, data := ['v'] }, .data ['t'],
      .tag { name := ['b'], nsPrefix := none, xmlns := some ['u'], namespaceMap := none } []]

theorem xmlnode_reparses_steady : Reparses (plainParse everyUri) id steadyNode := by
  have built : xmlnodeFromStr (plainParse everyUri) steadyText = some steadyNode := by rfl
  have unchanged : ∀ map : NamespaceMap, (id map).Perm map := fun map => List.Perm.refl map
  refine (xmlnode_reparses (conforming_plainParse everyUri) unchanged built).1 ⟨?_, ?_⟩
  · refine ⟨?_, trivial, trivial, ⟨?_, trivial⟩, trivial⟩
    · rintro _ ⟨rfl⟩ entry member
      cases mem_singleton.mp member
      exact List.all_eq_true.mp (by decide)
    · intro map impossible
      cases impossible
  · refine ⟨⟨?_, ?_, ?_⟩, trivial, by unfold Node.Faithful; decide, ⟨⟨?_, ?_, ?_⟩, trivial⟩, trivial⟩
    · intro impossible
      cases impossible
    · rintro _ ⟨rfl⟩ entry member c inside
      cases mem_singleton.mp member
      cases mem_singleton.mp inside
      decide
    · intro attrib member c inside
      cases mem_singleton.mp member
      cases mem_singleton.mp inside
      decide
    · intro _
      exact Or.inr rfl
    · intro map impossible
      cases impossible
    · intro attrib impossible
      cases impossible

/-- `<a xmlns:p='it&#39;s'/>` -/
def apostropheText : Text :=
  ['<', 'a', ' ', 'x', 'm', 'l', 'n', 's', ':', 'p', '=', '\'', 'i', 't', '&', '#', '3', '9', ';', 's',
    '\'', '/', '>']

/-- The apostrophe of the namespace ends the value that is printed. -/
theorem apostrophe_not_reparsed :
    Conforming everyUri (plainParse everyUri) ∧ ∃ node,
      xmlnodeFromStr (plainParse everyUri) apostropheText = some node ∧
        ¬Reparses (plainParse everyUri) id node := by
  refine ⟨conforming_plainParse everyUri, _, rfl, ?_⟩
  rintro ⟨accepted, -⟩
  exact not_accepted_error accepted

end Purple.Xml
