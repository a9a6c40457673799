/-
`xmlnode_to_str`, the SAX callbacks and `xmlnode_from_str`.

A node is the tree below it.  What libxml2 reports of a text is a parameter, and
so is the order in which a hash table gives its entries.
-/

import Purple.XmlText

namespace Purple.Xml

open Sax

abbrev NamespaceMap := List (Text × Text)

structure Tag where
  name : Text
  nsPrefix : Option Text
  xmlns : Option Text
  namespaceMap : Option NamespaceMap
deriving DecidableEq, Repr

structure Attrib where
  name : Text
  nsPrefix : Option Text
  xmlns : Option Text
  data : Text
deriving DecidableEq, Repr

inductive Node where
  | tag (tag : Tag) (children : List Node)
  | attrib (attrib : Attrib)
  | data (data : Text)
deriving Repr

def Node.isAttrib : Node → Bool
  | .attrib _ => true
  | _ => false

def Node.isAttribOf (name : Text) (xmlns : Option Text) : Node → Bool
  | .attrib found => found.name == name && found.xmlns == xmlns
  | _ => false

def Node.isData : Node → Bool
  | .data _ => true
  | _ => false

def newline : Text := ['\n']

/-- `%s:%s` or `%s`. -/
def qualified (nsPrefix : Option Text) (name : Text) : Text :=
  match nsPrefix with
  | some nsPrefix => nsPrefix ++ [':'] ++ name
  | none => name

/-- `%s='%s'` behind a blank. -/
def printAttrib (name value : Text) : Text := [' '] ++ name ++ ['=', '\''] ++ value ++ ['\'']

/-- `xmlnode_to_str_foreach_append_ns` -/
def appendNs (entry : Text × Text) : Text :=
  if entry.1.isEmpty then printAttrib xmlnsPrefix entry.2
  else printAttrib (qualified (some xmlnsPrefix) entry.1) entry.2

/-- The namespaces of a node; `parent` is the namespace of its parent, if it has one. -/
def printNamespaces (foreach : NamespaceMap → NamespaceMap) (parent : Option (Option Text))
    (tag : Tag) : Text :=
  match tag.namespaceMap with
  | some map => (foreach map).flatMap appendNs
  | none =>
    match tag.xmlns with
    | none => []
    | some xmlns =>
      if parent = some (some xmlns) then []
      else printAttrib xmlnsPrefix (gMarkupEscapeText xmlns)

def printAttribs : List Node → Text
  | [] => []
  | .attrib attrib :: rest =>
    printAttrib (qualified attrib.nsPrefix (gMarkupEscapeText attrib.name))
      (gMarkupEscapeText attrib.data) ++ printAttribs rest
  | .tag _ _ :: rest => printAttribs rest
  | .data _ :: rest => printAttribs rest

mutual

def xmlnodeToStrHelper (foreach : NamespaceMap → NamespaceMap) (parent : Option (Option Text))
    (formatting : Bool) (depth : Nat) : Node → Text
  | .tag tag children =>
    let pretty := formatting && !children.any Node.isData
    let tab := if formatting then List.replicate depth '\t' else []
    let nodeName := qualified tag.nsPrefix (gMarkupEscapeText tag.name)
    let needEnd := children.any (!·.isAttrib)
    tab ++ ['<'] ++ nodeName ++ printNamespaces foreach parent tag ++ printAttribs children ++
      if needEnd then
        ['>'] ++ (if pretty then newline else []) ++
          childrenToStr foreach tag.xmlns pretty (depth + 1) children ++
          (if pretty then tab else []) ++ ['<', '/'] ++ nodeName ++ ['>'] ++
          (if formatting then newline else [])
      else ['/', '>'] ++ (if formatting then newline else [])
  | .attrib _ => []
  | .data _ => []

def childrenToStr (foreach : NamespaceMap → NamespaceMap) (xmlns : Option Text) (pretty : Bool)
    (depth : Nat) : List Node → Text
  | [] => []
  | .tag tag children :: rest =>
    xmlnodeToStrHelper foreach (some xmlns) pretty depth (.tag tag children) ++
      childrenToStr foreach xmlns pretty depth rest
  | .attrib _ :: rest => childrenToStr foreach xmlns pretty depth rest
  | .data data :: rest =>
    gMarkupEscapeText data ++ childrenToStr foreach xmlns pretty depth rest

end

def xmlnodeToStr (foreach : NamespaceMap → NamespaceMap) (node : Node) : Text :=
  xmlnodeToStrHelper foreach none false 0 node

structure Frame where
  tag : Tag
  children : List Node

def Frame.node (frame : Frame) : Node := .tag frame.tag frame.children

def Frame.insertChild (frame : Frame) (child : Node) : Frame :=
  { frame with children := frame.children ++ [child] }

/-- `current` is the node in hand and behind it its ancestors; no node is NULL. -/
structure ParserData where
  current : List Frame
  error : Bool

/-- `g_hash_table_insert` of a namespace. -/
def insertNamespace (map : NamespaceMap) (key value : Text) : NamespaceMap :=
  if map.any (·.1 == key) then map.map fun entry => if entry.1 = key then (key, value) else entry
  else map ++ [(key, value)]

def namespaceMap (namespaces : List (Option Text × Option Text)) : Option NamespaceMap :=
  if namespaces.isEmpty then none
  else some (namespaces.foldl (fun map entry =>
    insertNamespace map (entry.1.getD []) (entry.2.getD [])) [])

/-- `xmlnode_set_attrib_full` on a node that has no children but attributes of
no namespace: the one of that name goes, the new one comes last. -/
def setAttribFull (children : List Node) (attrib : Attrib) : List Node :=
  children.eraseP (·.isAttribOf attrib.name attrib.xmlns) ++ [.attrib attrib]

def startAttributes (children : List Node) : List SaxAttribute → Option (List Node)
  | [] => some children
  | reported :: rest => do
    let data ← purpleUnescapeText reported.value
    startAttributes (setAttribFull children
      { name := reported.name, nsPrefix := reported.nsPrefix, xmlns := none, data }) rest

/-- `xmlnode_parser_element_start_libxml`.  An empty name makes no node, which
the code must not give a namespace map. -/
def elementStart (xpd : ParserData) (element : StartElement) : Option ParserData :=
  if xpd.error then some xpd
  else if element.name.isEmpty then
    if element.namespaces.isEmpty then some { xpd with current := [] } else none
  else do
    let children ← startAttributes [] element.attributes
    let tag :=
      { name := element.name, nsPrefix := element.nsPrefix, xmlns := element.xmlns,
        namespaceMap := namespaceMap element.namespaces }
    return { xpd with current := { tag, children } :: xpd.current }

/-- `xmlnode_parser_element_end_libxml` -/
def elementEnd (xpd : ParserData) (name : Text) : ParserData :=
  match xpd.error, xpd.current with
  | false, frame :: parent :: above =>
    if frame.tag.name = name then { xpd with current := parent.insertChild frame.node :: above }
    else xpd
  | _, _ => xpd

/-- `xmlnode_parser_element_text_libxml` -/
def elementText (xpd : ParserData) (text : Text) : ParserData :=
  match xpd.error, xpd.current with
  | false, frame :: above =>
    if text.isEmpty then xpd
    else { xpd with current := frame.insertChild (.data text) :: above }
  | _, _ => xpd

def handle (xpd : ParserData) : SaxEvent → Option ParserData
  | .startElement element => elementStart xpd element
  | .endElement name => some (elementEnd xpd name)
  | .characters text => some (elementText xpd text)
  | .error => some { xpd with error := true }

def handleAll (xpd : ParserData) : List SaxEvent → Option ParserData
  | [] => some xpd
  | event :: rest => (handle xpd event).bind fun next => handleAll next rest

def xmlnodeFromStr (parse : Text → SaxRun) (text : Text) : Option Node := do
  let xpd ← handleAll { current := [], error := false } (parse text).events
  let current := if (parse text).result < 0 then [] else xpd.current
  if xpd.error then none else current.head?.map Frame.node

end Purple.Xml
