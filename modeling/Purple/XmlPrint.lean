/-
What `xmlnode_to_str` prints is a plain document as long as the values of the
namespace maps, which it does not escape, can stand in apostrophes.
-/

import Purple.XmlParse

namespace Purple.Xml

open List Option Sax

variable {c : Char} {name : Text}

theorem name_of_nameStart (start : isNameStart c) : isNameChar c := by
  simp only [isNameChar, start, Bool.true_or]

theorem nameChars (isName : isNcName name) : ∀ c ∈ name, isNameChar c := by
  cases name with
  | nil => cases isName
  | cons first rest =>
    simp only [isNcName, Bool.and_eq_true, List.all_eq_true] at isName
    intro c member
    rcases mem_cons.mp member with rfl | later
    · exact name_of_nameStart isName.1
    · exact isName.2 c later

theorem nameChar_ne (isName : isNameChar c) (other : Char) (special : isNameChar other = false) :
    c ≠ other := by
  rintro rfl
  rw [special] at isName
  cases isName

theorem controls_unnamed : ∀ n < 0xa0, isEscapedControl (Char.ofNat n) →
    isNameChar (Char.ofNat n) = false := by
  decide +kernel

theorem control_lt (control : isEscapedControl c) : c.toNat < 0xa0 := by
  simp only [isEscapedControl, Bool.or_eq_true, Bool.and_eq_true, decide_eq_true_eq] at control
  omega

theorem escapeChar_name (isName : isNameChar c) : escapeChar c = [c] := by
  have control : isEscapedControl c = false := by
    cases escaped : isEscapedControl c with
    | false => rfl
    | true =>
      have unnamed := controls_unnamed c.toNat (control_lt escaped)
      rw [Char.ofNat_toNat, isName] at unnamed
      exact absurd (unnamed escaped) (by decide)
  simp only [escapeChar, if_neg (nameChar_ne isName '&' (by decide)),
    if_neg (nameChar_ne isName '<' (by decide)),
    if_neg (nameChar_ne isName '>' (by decide)),
    if_neg (nameChar_ne isName '\'' (by decide)),
    if_neg (nameChar_ne isName '"' (by decide)), control, Bool.false_eq_true, if_false]

theorem gMarkupEscapeText_name (isName : isNcName name) : gMarkupEscapeText name = name := by
  have chars := nameChars isName
  clear isName
  induction name with
  | nil => rfl
  | cons c rest ih =>
    rw [gMarkupEscapeText_cons, escapeChar_name (chars c mem_cons_self),
      ih fun other member => chars other (mem_cons_of_mem _ member), singleton_append]

def EndsName (rest : Text) : Prop := ∀ c, rest.head? = some c → isNameChar c = false

theorem endsName_cons (special : isNameChar c = false) (rest : Text) : EndsName (c :: rest) := by
  rintro _ ⟨rfl⟩
  exact special

theorem readNcName_append (isName : isNcName name) {rest : Text} (ends : EndsName rest) :
    readNcName (name ++ rest) = some (name, rest) := by
  have scanned : (name ++ rest).takeWhile isNameChar = name := by
    rw [takeWhile_append_of_pos (nameChars isName)]
    cases rest with
    | nil => exact append_nil _
    | cons c rest =>
      rw [takeWhile_cons_of_neg, append_nil]
      rw [ends c rfl]
      exact Bool.false_ne_true
  simp only [readNcName, scanned, if_pos isName, drop_left]

def namePrefix (nsPrefix : Option Text) : Prop := ∀ found, nsPrefix = some found → isNcName found

theorem readQName_append {nsPrefix : Option Text} (isPrefix : namePrefix nsPrefix)
    (isName : isNcName name) {rest : Text} (ends : EndsName rest) (colon : rest.head? ≠ some ':') :
    readQName (qualified nsPrefix name ++ rest) = some ((nsPrefix, name), rest) := by
  cases nsPrefix with
  | none =>
    simp only [qualified, readQName, readNcName_append isName ends, bind_eq_bind,
      bind_some, if_neg colon]
    rfl
  | some found =>
    have isFound := isPrefix found rfl
    have whole : qualified (some found) name ++ rest = found ++ (':' :: (name ++ rest)) := by
      simp only [qualified, append_assoc, cons_append, nil_append]
    have first := readNcName_append isFound
      (endsName_cons (c := ':') (by decide) (name ++ rest))
    rw [whole]
    simp only [readQName, first, bind_eq_bind, bind_some, head?_cons, if_true,
      tail_cons, readNcName_append isName ends]
    rfl

/-! ### Values -/

def escapePiece (c : Char) : Piece := if escapeChar c = [c] then .lit c else .ref c

theorem escapeChar_self (self : escapeChar c = [c]) : c ≠ '\'' ∧ c ≠ '<' ∧ c ≠ '&' ∧ c ≠ '>' := by
  refine ⟨?_, ?_, ?_, ?_⟩ <;> rintro rfl <;> revert self <;> decide

theorem controlDigits : ∀ n < 0xa0, 0x7f ≤ n →
    Nat.toDigits 16 n = [Nat.digitChar (n / 16), Nat.digitChar (n % 16)] ∧
      hexValue (Nat.digitChar (n / 16)) = some (n / 16) ∧
      hexValue (Nat.digitChar (n % 16)) = some (n % 16) := by
  decide

theorem readReference_hex (high low : Char) (rest : Text) :
    readReference ('#' :: 'x' :: high :: low :: ';' :: rest) =
      (hexValue high).bind fun n => (hexValue low).bind fun m =>
        some (Char.ofNat (n * 16 + m), rest) :=
  rfl

theorem readReference_escaped (valid : isXmlChar c) (escaped : escapeChar c ≠ [c]) (rest : Text) :
    ∃ reference, escapeChar c = '&' :: reference ∧
      readReference (reference ++ rest) = some (c, rest) := by
  rw [escapeChar] at escaped ⊢
  split
  · rename_i same
    exact ⟨_, rfl, same ▸ rfl⟩
  split
  · rename_i same
    exact ⟨_, rfl, same ▸ rfl⟩
  split
  · rename_i same
    exact ⟨_, rfl, same ▸ rfl⟩
  split
  · rename_i same
    exact ⟨_, rfl, same ▸ rfl⟩
  split
  · rename_i same
    exact ⟨_, rfl, same ▸ rfl⟩
  split
  · rename_i control
    have range : 0x7f ≤ c.toNat ∧ c.toNat < 0xa0 := by
      simp only [isEscapedControl, isXmlChar, Bool.or_eq_true, Bool.and_eq_true, decide_eq_true_eq,
        beq_iff_eq] at control valid
      omega
    obtain ⟨digits, high, low⟩ := controlDigits c.toNat range.2 range.1
    refine ⟨'#' :: 'x' :: Nat.digitChar (c.toNat / 16) :: Nat.digitChar (c.toNat % 16) :: [';'],
      ?_, ?_⟩
    · rw [digits]
      rfl
    · have joined : c.toNat / 16 * 16 + c.toNat % 16 = c.toNat := by omega
      simp only [cons_append, nil_append, readReference_hex, high, low, bind_some,
        joined, Char.ofNat_toNat]
  · rename_i first second third fourth fifth sixth
    simp only [if_neg first, if_neg second, if_neg third, if_neg fourth, if_neg fifth,
      if_neg sixth] at escaped
    exact absurd rfl escaped

/-- `value` in apostrophes is read as these pieces. -/
def ReadsAs (value : Text) (pieces : List Piece) : Prop :=
  ∀ rounds rest, value.length < rounds →
    readValue rounds (value ++ '\'' :: rest) = some (pieces, rest)

theorem escapeChar_length (c : Char) : 1 ≤ (escapeChar c).length := by
  rw [escapeChar]
  split
  · decide
  split
  · decide
  split
  · decide
  split
  · decide
  split
  · decide
  split
  · simp only [length_append, length_cons]
    omega
  · exact Nat.le_refl 1

theorem readsAs_escaped {text : Text} (valid : ∀ c ∈ text, isXmlChar c) :
    ReadsAs (gMarkupEscapeText text) (text.map escapePiece) := by
  induction text with
  | nil =>
    intro rounds rest enough
    cases rounds with
    | zero => cases enough
    | succ rounds => rfl
  | cons c later ih =>
    intro rounds rest enough
    have more := escapeChar_length c
    rw [gMarkupEscapeText_cons, length_append] at enough
    cases rounds with
    | zero => cases enough
    | succ rounds =>
      have looped := ih (fun other member => valid other (mem_cons_of_mem _ member))
        rounds rest (by omega)
      rw [gMarkupEscapeText_cons, append_assoc, map_cons, escapePiece]
      by_cases self : escapeChar c = [c]
      · obtain ⟨apostrophe, less, ampersand, -⟩ := escapeChar_self self
        rw [if_pos self, self, singleton_append]
        simp only [readValue, if_neg apostrophe, if_neg less, if_neg ampersand, looped,
          bind_eq_bind, bind_some]
        rfl
      · obtain ⟨reference, spelled, read⟩ := readReference_escaped
          (valid c mem_cons_self) self (gMarkupEscapeText later ++ '\'' :: rest)
        rw [if_neg self, spelled, cons_append]
        simp only [readValue, read, looped, bind_eq_bind, bind_some,
          Char.reduceEq, if_false, if_true]
        rfl

/-- A character that may stand as it is between apostrophes. -/
def isQuotable (c : Char) : Bool := c != '\'' && c != '<' && c != '&'

theorem readsAs_raw {value : Text} (quotable : ∀ c ∈ value, isQuotable c) :
    ReadsAs value (value.map .lit) := by
  induction value with
  | nil =>
    intro rounds rest enough
    cases rounds with
    | zero => cases enough
    | succ rounds => rfl
  | cons c later ih =>
    intro rounds rest enough
    cases rounds with
    | zero => cases enough
    | succ rounds =>
      have looped := ih (fun other member => quotable other (mem_cons_of_mem _ member))
        rounds rest (Nat.lt_of_succ_lt_succ enough)
      have here := quotable c mem_cons_self
      simp only [isQuotable, Bool.and_eq_true, bne_iff_ne] at here
      simp only [cons_append, readValue, if_neg here.1.1, if_neg here.1.2, if_neg here.2,
        looped, bind_eq_bind, bind_some]
      rfl

structure Printed where
  nsPrefix : Option Text
  name : Text
  value : Text
  pieces : List Piece

def Printed.text (printed : Printed) : Text :=
  printAttrib (qualified printed.nsPrefix printed.name) printed.value

def Printed.attribute (printed : Printed) : QName × List Piece :=
  ((printed.nsPrefix, printed.name), printed.pieces)

structure Printed.Plain (printed : Printed) : Prop where
  isPrefix : namePrefix printed.nsPrefix
  name : isNcName printed.name
  notXml : (printed.nsPrefix, printed.name) ≠ (some xmlnsPrefix, xmlPrefix)
  reads : ReadsAs printed.value printed.pieces

theorem readAttributes_printed {list : List Printed} (plain : ∀ printed ∈ list, printed.Plain)
    (rest : Text) (ends : rest.head? ≠ some ' ') (rounds : Nat) (enough : list.length < rounds) :
    readAttributes rounds (list.flatMap Printed.text ++ rest) =
      some (list.map Printed.attribute, rest) := by
  induction list generalizing rounds with
  | nil =>
    cases rounds with
    | zero => cases enough
    | succ rounds => simp only [flatMap_nil, nil_append, readAttributes, if_neg ends]; rfl
  | cons printed later ih =>
    cases rounds with
    | zero => cases enough
    | succ rounds =>
      have here := plain printed mem_cons_self
      have looped := ih (fun other member => plain other (mem_cons_of_mem _ member))
        rounds (Nat.lt_of_succ_lt_succ enough)
      have whole : (printed :: later).flatMap Printed.text ++ rest =
          ' ' :: (qualified printed.nsPrefix printed.name ++ ('=' :: '\'' :: (printed.value ++
            '\'' :: (later.flatMap Printed.text ++ rest)))) := by
        simp only [flatMap_cons, Printed.text, printAttrib, append_assoc,
          cons_append, nil_append]
      have named := readQName_append here.isPrefix here.name
        (endsName_cons (c := '=') (by decide)
          ('\'' :: (printed.value ++ '\'' :: (later.flatMap Printed.text ++ rest))))
        (by rw [head?_cons]; decide)
      have valued := here.reads
        ('=' :: '\'' :: (printed.value ++ '\'' ::
          (later.flatMap Printed.text ++ rest))).length
        (later.flatMap Printed.text ++ rest)
        (by simp only [length_cons, length_append]; omega)
      rw [whole]
      simp only [readAttributes, head?_cons, if_true, tail_cons, named,
        bind_eq_bind, bind_some, take_succ_cons, take_zero, ne_eq,
        not_true_eq_false, false_or, if_neg here.notXml, drop_succ_cons, drop_zero,
        valued, looped]
      rfl

/-! ### Nodes -/

def printedEntry (entry : Text × Text) : Printed :=
  if entry.1.isEmpty then
    { nsPrefix := none, name := xmlnsPrefix, value := entry.2, pieces := entry.2.map .lit }
  else
    { nsPrefix := some xmlnsPrefix, name := entry.1, value := entry.2, pieces := entry.2.map .lit }

def printedNamespaces (foreach : NamespaceMap → NamespaceMap) (parent : Option (Option Text))
    (tag : Tag) : List Printed :=
  match tag.namespaceMap with
  | some map => (foreach map).map printedEntry
  | none =>
    match tag.xmlns with
    | none => []
    | some xmlns =>
      if parent = some (some xmlns) then []
      else
        [{ nsPrefix := none, name := xmlnsPrefix, value := gMarkupEscapeText xmlns
           pieces := xmlns.map escapePiece }]

def printedAttrib (attrib : Attrib) : Printed :=
  { nsPrefix := attrib.nsPrefix
    name := attrib.name
    value := gMarkupEscapeText attrib.data
    pieces := attrib.data.map escapePiece }

def printedTag (foreach : NamespaceMap → NamespaceMap) (parent : Option (Option Text)) (tag : Tag)
    (children : List Node) : List Printed :=
  printedNamespaces foreach parent tag ++ (children.filterMap Node.attrib?).map printedAttrib

mutual

def docItems (foreach : NamespaceMap → NamespaceMap) (parent : Option (Option Text)) :
    Node → List DocItem
  | .tag tag children =>
    [.element (tag.nsPrefix, tag.name)
      ((printedTag foreach parent tag children).map Printed.attribute)
      (childrenDoc foreach tag.xmlns children)]
  | .attrib _ => []
  | .data data => data.map fun c => .piece (escapePiece c)

def childrenDoc (foreach : NamespaceMap → NamespaceMap) (xmlns : Option Text) :
    List Node → List DocItem
  | [] => []
  | node :: rest => docItems foreach (some xmlns) node ++ childrenDoc foreach xmlns rest

end

structure PrintableAttrib (attrib : Attrib) : Prop where
  name : isNcName attrib.name
  isPrefix : namePrefix attrib.nsPrefix
  notXml : (attrib.nsPrefix, attrib.name) ≠ (some xmlnsPrefix, xmlPrefix)
  data : ∀ c ∈ attrib.data, isXmlChar c

structure PrintableTag (tag : Tag) (children : List Node) : Prop where
  name : isNcName tag.name
  isPrefix : namePrefix tag.nsPrefix
  xmlns : ∀ xmlns, tag.xmlns = some xmlns → ∀ c ∈ xmlns, isXmlChar c
  keys : ∀ map, tag.namespaceMap = some map → ∀ entry ∈ map,
    entry.1 = [] ∨ isNcName entry.1 ∧ entry.1 ≠ xmlPrefix
  values : ∀ map, tag.namespaceMap = some map → ∀ entry ∈ map, ∀ c ∈ entry.2, isQuotable c
  attribs : ∀ attrib ∈ children.filterMap Node.attrib?, PrintableAttrib attrib

mutual

def Node.Printable : Node → Prop
  | .tag tag children => PrintableTag tag children ∧ childrenPrintable children
  | .attrib _ => True
  | .data data => ∀ c ∈ data, isXmlChar c

def childrenPrintable : List Node → Prop
  | [] => True
  | node :: rest => node.Printable ∧ childrenPrintable rest

end

section print

variable {foreach : NamespaceMap → NamespaceMap} (same : ∀ map, (foreach map).Perm map)
  {tag : Tag} {children : List Node}

theorem appendNs_printed (entry : Text × Text) : appendNs entry = (printedEntry entry).text := by
  rw [appendNs, printedEntry]
  split <;> rfl

theorem printNamespaces_printed (parent : Option (Option Text)) :
    printNamespaces foreach parent tag =
      (printedNamespaces foreach parent tag).flatMap Printed.text := by
  rw [printNamespaces, printedNamespaces]
  cases tag.namespaceMap with
  | some map =>
    rw [flatMap_map]
    exact flatMap_congr fun entry _ => appendNs_printed entry
  | none =>
    cases tag.xmlns with
    | none => rfl
    | some xmlns =>
      simp only
      split
      · rfl
      · rw [flatMap_singleton]
        rfl

theorem printAttribs_printed
    (attribs : ∀ attrib ∈ children.filterMap Node.attrib?, PrintableAttrib attrib) :
    printAttribs children =
      ((children.filterMap Node.attrib?).map printedAttrib).flatMap Printed.text := by
  induction children with
  | nil => rfl
  | cons node rest ih =>
    cases node with
    | tag tag children => exact ih attribs
    | data data => exact ih attribs
    | attrib attrib =>
      have here := attribs attrib mem_cons_self
      rw [printAttribs, gMarkupEscapeText_name here.name,
        ih fun other member => attribs other (mem_cons_of_mem _ member)]
      rfl

/-- The text of a tag behind its `<`. -/
def tagBody (foreach : NamespaceMap → NamespaceMap) (parent : Option (Option Text)) (depth : Nat)
    (tag : Tag) (children : List Node) : Text :=
  qualified tag.nsPrefix tag.name ++
    ((printedTag foreach parent tag children).flatMap Printed.text ++
      if children.any (!·.isAttrib) then
        '>' :: (childrenToStr foreach tag.xmlns false (depth + 1) children ++
          ('<' :: '/' :: (qualified tag.nsPrefix tag.name ++ ['>'])))
      else ['/', '>'])

theorem toStrHelper_tag (printable : PrintableTag tag children) (parent : Option (Option Text))
    (depth : Nat) :
    xmlnodeToStrHelper foreach parent false depth (.tag tag children) =
      '<' :: tagBody foreach parent depth tag children := by
  simp only [xmlnodeToStrHelper, Bool.false_and, Bool.false_eq_true, if_false,
    gMarkupEscapeText_name printable.name, printNamespaces_printed,
    printAttribs_printed printable.attribs, tagBody, printedTag, flatMap_append,
    append_assoc, nil_append, cons_append, append_nil]

include same in
theorem printedTag_plain (printable : PrintableTag tag children) (parent : Option (Option Text)) :
    ∀ printed ∈ printedTag foreach parent tag children, printed.Plain := by
  have xmlnsName : isNcName xmlnsPrefix := by decide
  have noPrefix : namePrefix none := fun _ impossible => nomatch impossible
  intro printed member
  rcases mem_append.mp member with namespaced | attributed
  · rw [printedNamespaces] at namespaced
    cases hasMap : tag.namespaceMap with
    | some map =>
      rw [hasMap] at namespaced
      obtain ⟨entry, inMap, rfl⟩ := List.mem_map.mp namespaced
      have inside : entry ∈ map := (same map).subset inMap
      have reads := readsAs_raw (printable.values map hasMap entry inside)
      rw [printedEntry]
      split
      · exact ⟨noPrefix, xmlnsName, by rintro ⟨⟩, reads⟩
      · rename_i named
        rcases printable.keys map hasMap entry inside with empty | ⟨key, notXml⟩
        · rw [empty] at named
          exact absurd rfl named
        · refine ⟨?_, key, ?_, reads⟩
          · rintro _ ⟨rfl⟩
            exact xmlnsName
          · intro bad
            exact notXml (Prod.mk.inj bad).2
    | none =>
      rw [hasMap] at namespaced
      cases hasXmlns : tag.xmlns with
      | none =>
        rw [hasXmlns] at namespaced
        cases namespaced
      | some xmlns =>
        rw [hasXmlns] at namespaced
        simp only at namespaced
        split at namespaced
        · cases namespaced
        · rw [mem_singleton.mp namespaced]
          exact ⟨noPrefix, xmlnsName, by rintro ⟨⟩,
            readsAs_escaped (printable.xmlns xmlns hasXmlns)⟩
  · obtain ⟨attrib, inside, rfl⟩ := List.mem_map.mp attributed
    have here := printable.attribs attrib inside
    exact ⟨here.isPrefix, here.name, here.notXml, readsAs_escaped here.data⟩

/-! ### Reading what is printed -/

def withContent (front : List DocItem) (read : List DocItem × Text) : List DocItem × Text :=
  (front ++ read.1, read.2)

theorem readContent_data {data : Text} (valid : ∀ c ∈ data, isXmlChar c) (rounds : Nat)
    (rest : Text) :
    readContent (rounds + data.length) (gMarkupEscapeText data ++ rest) =
      (readContent rounds rest).map
        (withContent (data.map fun c => .piece (escapePiece c))) := by
  induction data with
  | nil =>
    rw [gMarkupEscapeText_nil, nil_append, length_nil, Nat.add_zero]
    cases readContent rounds rest <;> rfl
  | cons c later ih =>
    have looped := ih fun other member => valid other (mem_cons_of_mem _ member)
    have joined : (readContent rounds rest).map
        (withContent ((c :: later).map fun c => .piece (escapePiece c))) =
        (readContent (rounds + later.length) (gMarkupEscapeText later ++ rest)).map
          (withContent [.piece (escapePiece c)]) := by
      rw [looped, Option.map_map]
      rfl
    rw [joined, gMarkupEscapeText_cons, append_assoc, length_cons, ← Nat.add_assoc,
      escapePiece]
    by_cases self : escapeChar c = [c]
    · obtain ⟨-, less, ampersand, greater⟩ := escapeChar_self self
      rw [if_pos self, self, singleton_append]
      simp only [readContent, if_neg less, if_neg ampersand, if_neg greater]
      cases readContent (rounds + later.length) (gMarkupEscapeText later ++ rest) <;> rfl
    · obtain ⟨reference, spelled, read⟩ := readReference_escaped
        (valid c mem_cons_self) self (gMarkupEscapeText later ++ rest)
      rw [if_neg self, spelled, cons_append]
      simp only [readContent, Char.reduceEq, if_false, if_true, read, bind_eq_bind,
        bind_some]
      cases readContent (rounds + later.length) (gMarkupEscapeText later ++ rest) <;> rfl

theorem gMarkupEscapeText_length (text : Text) : text.length ≤ (gMarkupEscapeText text).length := by
  induction text with
  | nil => exact Nat.le_refl 0
  | cons c rest ih =>
    have more := escapeChar_length c
    rw [gMarkupEscapeText_cons, length_append, length_cons]
    omega

theorem childrenDoc_attribs {xmlns : Option Text} (none : children.any (!·.isAttrib) = false) :
    childrenDoc foreach xmlns children = [] := by
  induction children with
  | nil => rfl
  | cons node rest ih =>
    rw [any_cons, Bool.or_eq_false_iff] at none
    cases node with
    | attrib attrib =>
      rw [childrenDoc, docItems, nil_append]
      exact ih none.2
    | tag tag children => cases none.1
    | data data => cases none.1

theorem qualified_head {nsPrefix : Option Text} (isPrefix : namePrefix nsPrefix) {name : Text}
    (isName : isNcName name) (rest : Text) :
    (qualified nsPrefix name ++ rest).head? ≠ some '/' := by
  have start {text : Text} (named : isNcName text) (rest : Text) :
      (text ++ rest).head? ≠ some '/' := by
    cases text with
    | nil => cases named
    | cons first later =>
      simp only [isNcName, Bool.and_eq_true] at named
      rw [cons_append, head?_cons]
      intro slash
      cases slash
      revert named
      exact fun named => absurd named.1 (by decide)
  cases nsPrefix with
  | none => exact start isName rest
  | some found =>
    rw [qualified, append_assoc, append_assoc]
    exact start (isPrefix found rfl) _

theorem printed_length (list : List Printed) : list.length ≤ (list.flatMap Printed.text).length := by
  induction list with
  | nil => exact Nat.le_refl 0
  | cons printed rest ih =>
    rw [flatMap_cons, length_append, length_cons, Printed.text, printAttrib,
      append_assoc, append_assoc, append_assoc, length_append]
    have blank : ([' '] : Text).length = 1 := rfl
    omega

theorem behind_name (list : List Printed) (rest : Text) {c : Char} (head : rest.head? = some c)
    (special : isNameChar c = false) (colon : c ≠ ':') :
    EndsName (list.flatMap Printed.text ++ rest) ∧
      (list.flatMap Printed.text ++ rest).head? ≠ some ':' := by
  cases list with
  | nil =>
    rw [flatMap_nil, nil_append, head]
    constructor
    · intro other same
      rw [head] at same
      cases same
      exact special
    · exact fun same => colon (Option.some.inj same)
  | cons printed later =>
    refine ⟨endsName_cons (c := ' ') (by decide) _, ?_⟩
    rw [flatMap_cons]
    exact fun same => absurd (Option.some.inj same) (by decide)

include same

def ReadsBack (foreach : NamespaceMap → NamespaceMap) (children : List Node) : Prop :=
  ∀ (xmlns : Option Text) (depth rounds : Nat) (rest : Text), childrenPrintable children →
    (childrenToStr foreach xmlns false depth children).length < rounds →
    readContent rounds (childrenToStr foreach xmlns false depth children ++ ('<' :: '/' :: rest)) =
      some (childrenDoc foreach xmlns children, rest)

theorem readElement_tag (reads : ReadsBack foreach children)
    (printable : (Node.tag tag children).Printable) (parent : Option (Option Text)) (depth : Nat)
    {rounds : Nat} (rest : Text)
    (enough : (tagBody foreach parent depth tag children).length ≤ rounds) :
    readElement rounds (tagBody foreach parent depth tag children ++ rest) =
      some (.element (tag.nsPrefix, tag.name)
        ((printedTag foreach parent tag children).map Printed.attribute)
        (childrenDoc foreach tag.xmlns children), rest) := by
  rw [Node.Printable] at printable
  obtain ⟨here, below⟩ := printable
  have plain := printedTag_plain same here parent
  have short := printed_length (printedTag foreach parent tag children)
  cases needEnd : children.any (!·.isAttrib) with
  | false =>
    have whole : tagBody foreach parent depth tag children ++ rest =
        qualified tag.nsPrefix tag.name ++
          ((printedTag foreach parent tag children).flatMap Printed.text ++ ('/' :: '>' :: rest)) := by
      simp only [tagBody, needEnd, Bool.false_eq_true, if_false, append_assoc,
        cons_append, nil_append]
    obtain ⟨ends, colon⟩ := behind_name (printedTag foreach parent tag children)
      ('/' :: '>' :: rest) rfl (by decide) (by decide)
    have attributes := readAttributes_printed plain ('/' :: '>' :: rest)
      (by rw [head?_cons]; decide)
      (((printedTag foreach parent tag children).flatMap Printed.text ++
        ('/' :: '>' :: rest)).length + 1)
      (by rw [length_append]; omega)
    cases rounds with
    | zero =>
      simp only [tagBody, needEnd, Bool.false_eq_true, if_false, length_append,
        length_cons] at enough
      omega
    | succ rounds =>
      rw [whole, childrenDoc_attribs needEnd]
      simp only [readElement, readQName_append here.isPrefix here.name ends colon, attributes,
        bind_eq_bind, bind_some, take_succ_cons, take_zero, if_true,
        drop_succ_cons, drop_zero]
      rfl
  | true =>
    have whole : tagBody foreach parent depth tag children ++ rest =
        qualified tag.nsPrefix tag.name ++
          ((printedTag foreach parent tag children).flatMap Printed.text ++
            ('>' :: (childrenToStr foreach tag.xmlns false (depth + 1) children ++
              ('<' :: '/' :: (qualified tag.nsPrefix tag.name ++ ('>' :: rest)))))) := by
      simp only [tagBody, needEnd, if_true, append_assoc, cons_append, nil_append]
    obtain ⟨ends, colon⟩ := behind_name (printedTag foreach parent tag children)
      ('>' :: (childrenToStr foreach tag.xmlns false (depth + 1) children ++
        ('<' :: '/' :: (qualified tag.nsPrefix tag.name ++ ('>' :: rest)))))
      rfl (by decide) (by decide)
    have attributes := readAttributes_printed plain
      ('>' :: (childrenToStr foreach tag.xmlns false (depth + 1) children ++
        ('<' :: '/' :: (qualified tag.nsPrefix tag.name ++ ('>' :: rest)))))
      (by rw [head?_cons]; decide)
      (((printedTag foreach parent tag children).flatMap Printed.text ++
        ('>' :: (childrenToStr foreach tag.xmlns false (depth + 1) children ++
          ('<' :: '/' :: (qualified tag.nsPrefix tag.name ++ ('>' :: rest)))))).length + 1)
      (by rw [length_append]; omega)
    have closing := readQName_append here.isPrefix here.name
      (endsName_cons (c := '>') (by decide) rest) (by rw [head?_cons]; decide)
    simp only [tagBody, needEnd, if_true, length_append, length_cons] at enough
    cases rounds with
    | zero => omega
    | succ rounds =>
      have content := reads tag.xmlns (depth + 1) rounds
        (qualified tag.nsPrefix tag.name ++ ('>' :: rest)) below (by omega)
      rw [whole]
      simp only [readElement, readQName_append here.isPrefix here.name ends colon, attributes,
        bind_eq_bind, bind_some, take_succ_cons, List.cons.injEq,
        Char.reduceEq, false_and, if_false, head?_cons, if_true, tail_cons, content,
        closing, and_self]
      rfl

theorem readContent_children (children : List Node) : ReadsBack foreach children := by
  intro xmlns depth rounds rest printable enough
  match children with
  | [] =>
    cases rounds with
    | zero => cases enough
    | succ rounds =>
      simp only [childrenToStr, nil_append, readContent, if_true, head?_cons,
        tail_cons, childrenDoc]
  | .attrib attrib :: later =>
    rw [childrenPrintable] at printable
    rw [childrenDoc, docItems, nil_append]
    exact readContent_children later xmlns depth rounds rest printable.2 enough
  | .data data :: later =>
    rw [childrenPrintable, Node.Printable] at printable
    have short := gMarkupEscapeText_length data
    rw [childrenToStr, length_append] at enough
    have looped := readContent_children later xmlns depth (rounds - data.length) rest
      printable.2 (by omega)
    have split : rounds = rounds - data.length + data.length := by omega
    rw [childrenToStr, append_assoc, split, readContent_data printable.1, looped,
      map_some, childrenDoc, docItems, withContent]
  | .tag tag below :: later =>
    rw [childrenPrintable] at printable
    obtain ⟨here, others⟩ := printable
    have head := here
    rw [Node.Printable] at head
    have shown := @toStrHelper_tag foreach _ _ head.1 (some xmlns) depth
    rw [childrenToStr, shown, cons_append, length_cons, length_append] at enough
    rw [childrenToStr, shown, cons_append, cons_append, append_assoc]
    cases rounds with
    | zero => cases enough
    | succ rounds =>
      have inside : (tagBody foreach (some xmlns) depth tag below).length ≤ rounds := by omega
      have inner := readElement_tag same (readContent_children below) here (some xmlns) depth
        (childrenToStr foreach xmlns false depth later ++ ('<' :: '/' :: rest)) inside
      have looped := readContent_children later xmlns depth rounds rest others (by omega)
      have notEnd : (tagBody foreach (some xmlns) depth tag below ++
          (childrenToStr foreach xmlns false depth later ++ ('<' :: '/' :: rest))).head? ≠
            some '/' := by
        rw [tagBody, append_assoc]
        exact qualified_head head.1.isPrefix head.1.name _
      simp only [readContent, if_true, if_neg notEnd, inner, looped, bind_eq_bind,
        bind_some, childrenDoc, docItems]
      rfl

theorem readDocument_toStr (printable : (Node.tag tag children).Printable) :
    readDocument (xmlnodeToStr foreach (.tag tag children)) =
      some (.element (tag.nsPrefix, tag.name)
        ((printedTag foreach none tag children).map Printed.attribute)
        (childrenDoc foreach tag.xmlns children)) := by
  have head := printable
  rw [Node.Printable] at head
  have enough : (tagBody foreach none 0 tag children).length ≤
      (xmlnodeToStr foreach (.tag tag children)).length := by
    rw [xmlnodeToStr, toStrHelper_tag head.1, length_cons]
    exact Nat.le_succ _
  have read := readElement_tag same (readContent_children same children) printable none 0 [] enough
  rw [append_nil] at read
  rw [readDocument, xmlnodeToStr, toStrHelper_tag head.1, head?_cons, if_pos rfl,
    tail_cons]
  rw [xmlnodeToStr, toStrHelper_tag head.1] at read
  rw [read]

end print

end Purple.Xml
