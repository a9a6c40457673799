/-
The tree that `xmlnode_from_str` builds from what a conforming parser reports, and
its reading by `xmlnode_get_attrib`, `xmlnode_get_data`, `xmlnode_get_child` and
`xmlnode_get_next_twin`, for which a tag is the list of its children.
-/

import Purple.XmlTree

namespace Purple.Xml

open List Option Sax

/-- What a tag says of itself: its names, its namespace map as a table and its
attributes in their order. -/
structure Label where
  name : Text
  nsPrefix : Option Text
  xmlns : Option Text
  namespaces : Option (Text → Option Text)
  attribs : List Attrib

def Node.attrib? : Node → Option Attrib
  | .attrib found => some found
  | _ => none

def label (tag : Tag) (children : List Node) : Label :=
  { name := tag.name
    nsPrefix := tag.nsPrefix
    xmlns := tag.xmlns
    namespaces := tag.namespaceMap.map fun map key => map.lookup key
    attribs := children.filterMap Node.attrib? }

mutual

/-- The structure of a tree, in which data between tags is not split. -/
def Node.shape : Node → List (Shape Label)
  | .tag tag children => [.node (label tag children) (childrenShape children)]
  | .attrib _ => []
  | .data data => data.map .char

def childrenShape : List Node → List (Shape Label)
  | [] => []
  | node :: rest => node.shape ++ childrenShape rest

end

variable {tag : StartElement}

theorem childrenShape_append (front rest : List Node) :
    childrenShape (front ++ rest) = childrenShape front ++ childrenShape rest := by
  induction front with
  | nil => rfl
  | cons node front ih => rw [cons_append, childrenShape, childrenShape, ih, append_assoc]

theorem childrenShape_attribs {nodes : List Node} (attribs : ∀ node ∈ nodes, node.isAttrib) :
    childrenShape nodes = [] := by
  induction nodes with
  | nil => rfl
  | cons node rest ih =>
    cases node with
    | attrib attrib =>
      rw [childrenShape, Node.shape, nil_append]
      exact ih fun other member => attribs other (mem_cons_of_mem _ member)
    | tag tag children => cases attribs _ mem_cons_self
    | data data => cases attribs _ mem_cons_self

def attribOf (reported : SaxAttribute) : Attrib :=
  { name := reported.name
    nsPrefix := reported.nsPrefix
    xmlns := none
    data := (expandAmpersands reported.value).getD [] }

def builtAttribs (attributes : List SaxAttribute) : List Node :=
  (attributes.map attribOf).foldl setAttribFull []

theorem startAttributes_built {attributes : List SaxAttribute}
    (expand : ∀ reported ∈ attributes, (expandAmpersands reported.value).isSome)
    (children : List Node) :
    startAttributes children attributes =
      some ((attributes.map attribOf).foldl setAttribFull children) := by
  induction attributes generalizing children with
  | nil => rfl
  | cons reported rest ih =>
    obtain ⟨data, expanded⟩ := isSome_iff_exists.mp (expand reported mem_cons_self)
    rw [startAttributes, purpleUnescapeText_of_expand expanded, bind_eq_bind,
      bind_some, ih fun other member => expand other (mem_cons_of_mem _ member),
      map_cons, foldl_cons, attribOf, expanded]
    rfl

theorem setAttribFull_attribs {children : List Node} (attribs : ∀ node ∈ children, node.isAttrib)
    (attrib : Attrib) : ∀ node ∈ setAttribFull children attrib, node.isAttrib := by
  intro node member
  rcases mem_append.mp member with old | new
  · exact attribs node (mem_of_mem_eraseP old)
  · rw [mem_singleton.mp new]
    rfl

theorem builtAttribs_attribs (attributes : List SaxAttribute) :
    ∀ node ∈ builtAttribs attributes, node.isAttrib := by
  suffices general : ∀ (attribs : List Attrib) (children : List Node),
      (∀ node ∈ children, node.isAttrib) →
      ∀ node ∈ attribs.foldl setAttribFull children, node.isAttrib from
    general _ [] fun _ impossible => nomatch impossible
  intro attribs
  induction attribs with
  | nil => exact fun _ old => old
  | cons attrib rest ih => exact fun children old => ih _ (setAttribFull_attribs old attrib)

def tagOf (element : StartElement) : Tag :=
  { name := element.name
    nsPrefix := element.nsPrefix
    xmlns := element.xmlns
    namespaceMap := namespaceMap element.namespaces }

mutual

def buildItem : Item → List Node
  | .text chunk => if chunk.isEmpty then [] else [.data chunk]
  | .element tag content =>
    [.tag (tagOf tag) (builtAttribs tag.attributes ++ buildContent content)]

def buildContent : List Item → List Node
  | [] => []
  | item :: rest => buildItem item ++ buildContent rest

end

structure WellFormedTag (isUri : Text → Bool) (scope : Scope) (tag : StartElement) : Prop where
  name : isNcName tag.name
  binds : Scope.binds (declared tag.namespaces ++ scope) tag.nsPrefix
  xmlns : tag.xmlns = Scope.uri (declared tag.namespaces ++ scope) tag.nsPrefix
  declarations : ∀ declaration ∈ declared tag.namespaces, isDeclaration isUri declaration
  distinct : ((declared tag.namespaces).map Prod.fst).Nodup
  attributes : ∀ reported ∈ tag.attributes, isAttribute (declared tag.namespaces ++ scope) reported
  attributesDistinct : (tag.attributes.map (expandedName (declared tag.namespaces ++ scope))).Nodup

variable {isUri : Text → Bool} {scope : Scope}

theorem conforms_iff : tag.conforms isUri scope ↔ WellFormedTag isUri scope tag := by
  simp only [StartElement.conforms, Bool.and_eq_true, beq_iff_eq, decide_eq_true_eq,
    List.all_eq_true]
  constructor
  · rintro ⟨⟨⟨⟨⟨⟨name, binds⟩, xmlns⟩, declarations⟩, distinct⟩, attributes⟩, attributesDistinct⟩
    exact ⟨name, binds, xmlns, declarations, distinct, attributes, attributesDistinct⟩
  · intro wellFormed
    exact ⟨⟨⟨⟨⟨⟨wellFormed.name, wellFormed.binds⟩, wellFormed.xmlns⟩, wellFormed.declarations⟩,
      wellFormed.distinct⟩, wellFormed.attributes⟩, wellFormed.attributesDistinct⟩

theorem WellFormedTag.expands (wellFormed : WellFormedTag isUri scope tag) :
    ∀ reported ∈ tag.attributes, (expandAmpersands reported.value).isSome := by
  intro reported member
  have conforms := wellFormed.attributes reported member
  simp only [isAttribute, Bool.and_eq_true] at conforms
  cases expanded : expandAmpersands reported.value with
  | none =>
    rw [expanded] at conforms
    cases conforms.2
  | some text => rfl

theorem elementStart_wellFormed (wellFormed : WellFormedTag isUri scope tag)
    (current : List Frame) : elementStart { current, error := false } tag =
      some { current := { tag := tagOf tag, children := builtAttribs tag.attributes } :: current
             error := false } := by
  have named : tag.name.isEmpty = false := by
    cases spelled : tag.name with
    | nil =>
      have name := wellFormed.name
      rw [spelled] at name
      cases name
    | cons first rest => rfl
  simp only [elementStart, Bool.false_eq_true, if_false, named,
    startAttributes_built wellFormed.expands, bind_eq_bind, bind_some]
  rfl

mutual

theorem handleAll_item (scope : Scope) (item : Item) (conforms : item.conforms isUri scope)
    (frame : Frame) (above : List Frame) (rest : List SaxEvent) :
    handleAll { current := frame :: above, error := false } (item.events ++ rest) =
      handleAll { current := { frame with children := frame.children ++ buildItem item } :: above
                  error := false } rest := by
  match item with
  | .text chunk =>
    rw [Item.events, buildItem, singleton_append, handleAll, handle, bind_some]
    simp only [elementText]
    by_cases empty : chunk.isEmpty
    · rw [if_pos empty, if_pos empty, append_nil]
    · rw [if_neg empty, if_neg empty]
      rfl
  | .element tag content =>
    rw [Item.conforms, Bool.and_eq_true, conforms_iff] at conforms
    rw [Item.events, cons_append, handleAll, handle, elementStart_wellFormed conforms.1,
      bind_some, append_assoc,
      handleAll_content _ content conforms.2, singleton_append, handleAll, handle,
      bind_some, elementEnd]
    simp only [tagOf, if_true]
    rfl

theorem handleAll_content (scope : Scope) (content : List Item)
    (conforms : contentConforms isUri scope content) (frame : Frame) (above : List Frame)
    (rest : List SaxEvent) :
    handleAll { current := frame :: above, error := false } (contentEvents content ++ rest) =
      handleAll { current := { frame with children := frame.children ++ buildContent content } ::
                    above
                  error := false } rest := by
  match content with
  | [] => rw [contentEvents, buildContent, nil_append, append_nil]
  | item :: later =>
    rw [contentConforms, Bool.and_eq_true] at conforms
    rw [contentEvents, buildContent, append_assoc, handleAll_item _ item conforms.1,
      handleAll_content _ later conforms.2, append_assoc]

end

theorem handleAll_error (events : List SaxEvent) {xpd last : ParserData} (error : xpd.error)
    (handled : handleAll xpd events = some last) : last.error := by
  induction events generalizing xpd with
  | nil =>
    cases handled
    exact error
  | cons event rest ih =>
    obtain ⟨next, stepped, later⟩ := bind_eq_some_iff.mp handled
    refine ih ?_ later
    cases event with
    | startElement element =>
      rw [handle, elementStart, if_pos error] at stepped
      cases stepped
      exact error
    | endElement name =>
      rw [handle, elementEnd, error] at stepped
      cases stepped
      exact error
    | characters text =>
      rw [handle, elementText, error] at stepped
      cases stepped
      exact error
    | error =>
      cases stepped
      rfl

theorem handleAll_reported (events : List SaxEvent) {xpd last : ParserData}
    (reported : .error ∈ events) (handled : handleAll xpd events = some last) : last.error := by
  induction events generalizing xpd with
  | nil => cases reported
  | cons event rest ih =>
    obtain ⟨next, stepped, later⟩ := bind_eq_some_iff.mp handled
    rcases mem_cons.mp reported with here | there
    · subst here
      cases stepped
      exact handleAll_error rest rfl later
    · exact ih there later

variable {parse : Text → SaxRun}

theorem accepted_of_fromStr {text : Text} {node : Node}
    (built : xmlnodeFromStr parse text = some node) : (parse text).Accepted := by
  obtain ⟨xpd, handled, given⟩ := bind_eq_some_iff.mp built
  constructor
  · by_contra negative
    simp only [if_pos (Int.not_le.mp negative), head?_nil, map_none, ite_self] at given
    cases given
  · intro reported
    rw [if_pos (handleAll_reported _ reported handled)] at given
    cases given

theorem fromStr_events {text : Text} {content : List Item} (accepted : (parse text).Accepted)
    (conforms : (Item.element tag content).conforms isUri [])
    (events : (parse text).events = (Item.element tag content).events) :
    xmlnodeFromStr parse text =
      some (.tag (tagOf tag) (builtAttribs tag.attributes ++ buildContent content)) := by
  rw [Item.conforms, Bool.and_eq_true, conforms_iff] at conforms
  have handled : handleAll { current := [], error := false } (parse text).events = some
      { current := [{ tag := tagOf tag
                      children := builtAttribs tag.attributes ++ buildContent content }]
        error := false } := by
    rw [events, Item.events, handleAll, handle, elementStart_wellFormed conforms.1,
      bind_some, handleAll_content _ content conforms.2]
    rfl
  rw [xmlnodeFromStr, handled, bind_eq_bind, bind_some]
  simp only [if_neg (Int.not_lt.mpr accepted.1)]
  rfl

def startLabel (element : StartElement) : Label :=
  label (tagOf element) (builtAttribs element.attributes)

mutual

def relabel {First Second : Type} (change : First → Second) : Shape First → Shape Second
  | .char c => .char c
  | .node label children => .node (change label) (relabelAll change children)

def relabelAll {First Second : Type} (change : First → Second) :
    List (Shape First) → List (Shape Second)
  | [] => []
  | shape :: rest => relabel change shape :: relabelAll change rest

end

theorem relabelAll_append {First Second : Type} (change : First → Second)
    (front rest : List (Shape First)) :
    relabelAll change (front ++ rest) = relabelAll change front ++ relabelAll change rest := by
  induction front with
  | nil => rfl
  | cons shape front ih => rw [cons_append, relabelAll, relabelAll, ih, cons_append]

theorem relabelAll_chars {First Second : Type} (change : First → Second) (chunk : Text) :
    relabelAll change (chunk.map .char) = chunk.map .char := by
  induction chunk with
  | nil => rfl
  | cons c rest ih => rw [map_cons, relabelAll, ih, relabel, map_cons]

theorem buildContent_attribs (content : List Item) :
    (buildContent content).filterMap Node.attrib? = [] := by
  induction content with
  | nil => rfl
  | cons item rest ih =>
    rw [buildContent, filterMap_append, ih, append_nil]
    cases item with
    | text chunk =>
      rw [buildItem]
      split <;> rfl
    | element tag content => rw [buildItem]; rfl

mutual

theorem buildItem_shape (item : Item) :
    childrenShape (buildItem item) = relabelAll startLabel item.shape := by
  match item with
  | .text chunk =>
    rw [buildItem, Item.shape, relabelAll_chars]
    split
    · rename_i empty
      rw [List.isEmpty_iff.mp empty]
      rfl
    · rw [childrenShape, Node.shape, childrenShape, append_nil]
  | .element tag content =>
    rw [buildItem, Item.shape, childrenShape, Node.shape, childrenShape, relabelAll, relabel,
      relabelAll, childrenShape_append, childrenShape_attribs (builtAttribs_attribs _),
      buildContent_shape content, startLabel, label, label, filterMap_append,
      buildContent_attribs]
    simp only [append_nil, nil_append]

theorem buildContent_shape (content : List Item) :
    childrenShape (buildContent content) = relabelAll startLabel (contentShape content) := by
  match content with
  | [] => rfl
  | item :: rest =>
    rw [buildContent, contentShape, childrenShape_append, relabelAll_append,
      buildItem_shape item, buildContent_shape rest]

end

def Node.dataText : Node → Option Text
  | .data text => some text
  | .tag _ _ => none
  | .attrib _ => none

/-- `xmlnode_get_attrib` -/
def getAttrib (children : List Node) (attr : Text) : Option Text :=
  ((children.filterMap Node.attrib?).find? (·.name == attr)).map Attrib.data

/-- `xmlnode_get_data` -/
def getData (children : List Node) : Option Text :=
  if (children.filterMap Node.dataText).isEmpty then none
  else some (children.filterMap Node.dataText).flatten

/-- The children of the nodes that `xmlnode_get_next_twin` gives one after the
other: after a node with a namespace only a node with that namespace. -/
def twins (name : Text) : Option Text → List Node → List (List Node)
  | _, [] => []
  | xmlns, .tag tag children :: rest =>
    if tag.name = name ∧ (xmlns = none ∨ tag.xmlns = xmlns) then
      children :: twins name tag.xmlns rest
    else twins name xmlns rest
  | xmlns, .attrib _ :: rest => twins name xmlns rest
  | xmlns, .data _ :: rest => twins name xmlns rest

/-- `xmlnode_get_child` and the twins behind it. -/
def childrenNamed (children : List Node) (name : Text) : List (List Node) := twins name none children

end Purple.Xml
