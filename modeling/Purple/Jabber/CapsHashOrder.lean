/-
What the verification string owes to the order of the elements it is made from.

A reordering keeps the attributes and the character data of a node where they are and
moves its elements, down to the values of a field.
-/

import Mathlib.Data.List.Sort
import Purple.Jabber.CapsHash

namespace Purple.Jabber.CapsHash

open List Sax Xml SortedList

abbrev Element := Tag × List Node

def element? : Node → Option Element
  | .tag tag children => some (tag, children)
  | .attrib _ => none
  | .data _ => none

def elements (children : List Node) : List Element := children.filterMap element?

def others (children : List Node) : List Node := children.filter fun node => (element? node).isNone

def nodeOf (element : Element) : Node := .tag element.1 element.2

/-- The elements are moved, and their own elements down to `depth` levels. -/
def Reordered : Nat → List Node → List Node → Prop
  | 0, first, second => first = second
  | depth + 1, first, second => others first = others second ∧ ∃ middle,
      List.Forall₂ (fun left right : Element => left.1 = right.1 ∧ Reordered depth left.2 right.2)
        (elements first) middle ∧ middle.Perm (elements second)

/-- The hash is calculated without a NULL string, and is the same for every order of the
identities, features, forms, fields and values, whatever the digest. -/
def OrderIndependent (query : Tag) (children : List Node) : Prop :=
  ∀ digest reordered, Reordered 3 children reordered → ∃ hash,
    jabberCapsCalculateHash (jabberCapsParseClientInfo query reordered) digest = some hash ∧
    jabberCapsCalculateHash (jabberCapsParseClientInfo query children) digest = some hash

def identityOf (child : Element) : Option JabberIdentity :=
  if child.1.name = lit "identity" then parseIdentity child.2 else none

def featureOf (child : Element) : Option Text :=
  if child.1.name = lit "feature" then getAttrib child.2 (lit "var") else none

def isForm (tag : Tag) : Prop := tag.name = lit "x" ∧ tag.xmlns = some (lit "jabber:x:data")

instance (tag : Tag) : Decidable (isForm tag) := inferInstanceAs (Decidable (_ ∧ _))

def formOf (child : Element) : Option (List Node) := if isForm child.1 then some child.2 else none

def identitiesOf (children : List Node) : List JabberIdentity := (elements children).filterMap identityOf

def featuresOf (children : List Node) : List Text := (elements children).filterMap featureOf

def formsOf (children : List Node) : List (List Node) := (elements children).filterMap formOf

def named (name : Text) (children : List Node) : List Element :=
  (elements children).filter (·.1.name = name)

def fieldsOf (form : List Node) : List Element := named (lit "field") form

def varOf (field : Element) : Option Text := getAttrib field.2 (lit "var")

def dataOf (field : Element) : List (Option Text) :=
  (named (lit "value") field.2).map fun value => getData value.2

def typeData (field : Element) : List (Option Text) :=
  if dataOf field = [] then [none] else dataOf field

/-- The values that the fields with the name of the form's type can give it. -/
def typesOf (form : List Node) : List (Option Text) :=
  ((fieldsOf form).filter (varOf · = some formType)).flatMap typeData

def sortTexts (texts : List Text) : List Text :=
  texts.mergeSort fun first second => decide (strcmp first second ≤ 0)

def fieldWords (field : Element) : List Text :=
  (varOf field).getD [] :: sortTexts ((dataOf field).map (·.getD []))

def compareVars (first second : Element) : Int :=
  strcmp ((varOf first).getD []) ((varOf second).getD [])

def typeOf (form : List Node) : Text := ((typesOf form).head?.join).getD []

def formWords (form : List Node) : List Text :=
  typeOf form ::
    (((fieldsOf form).filter (varOf · ≠ some formType)).mergeSort fun first second =>
      decide (compareVars first second ≤ 0)).flatMap fieldWords

/-- The fields of a form have one namespace, and so have the values of a field. -/
def Uniform (form : List Node) : Prop :=
  (∀ first ∈ fieldsOf form, ∀ second ∈ fieldsOf form, first.1.xmlns = second.1.xmlns) ∧
    ∀ field ∈ fieldsOf form, ∀ first ∈ named (lit "value") field.2,
      ∀ second ∈ named (lit "value") field.2, first.1.xmlns = second.1.xmlns

structure FieldOk (field : Element) : Prop where
  var : (varOf field).isSome
  values : 2 ≤ (dataOf field).length → ∀ data ∈ dataOf field, data.isSome

/-- Fields of one name can be written in either order, and the form has one type. -/
structure FormOk (form : List Node) : Prop where
  fields : ∀ field ∈ fieldsOf form, FieldOk field
  commute : ∀ first ∈ fieldsOf form, ∀ second ∈ fieldsOf form, varOf first = varOf second →
    varOf first ≠ some formType →
      fieldWords first ++ fieldWords second = fieldWords second ++ fieldWords first
  types : ∀ first ∈ typesOf form, ∀ second ∈ typesOf form, first.getD [] = second.getD []

/-- Identities that are equal but for the name have one name, the forms are good, forms of
one type can be written in either order, and with more than one form each has a type. -/
structure Settled (children : List Node) : Prop where
  identities : ∀ first ∈ identitiesOf children, ∀ second ∈ identitiesOf children,
    first.category = second.category → first.type = second.type → first.lang = second.lang →
      first.name.getD [] = second.name.getD []
  forms : ∀ form ∈ formsOf children, FormOk form
  typed : 2 ≤ (formsOf children).length → ∀ form ∈ formsOf children,
    typesOf form ≠ [] ∧ ∀ type ∈ typesOf form, type.isSome
  commute : ∀ first ∈ formsOf children, ∀ second ∈ formsOf children,
    typeOf first = typeOf second →
      formWords first ++ formWords second = formWords second ++ formWords first

variable {depth : Nat} {first second : List Node}

theorem getAttrib_others (children : List Node) (attr : Text) :
    getAttrib (others children) attr = getAttrib children attr := by
  have kept : (others children).filterMap Node.attrib? = children.filterMap Node.attrib? := by
    rw [others, filterMap_filter]
    congr 1
    funext node
    cases node <;> rfl
  rw [getAttrib, getAttrib, kept]

theorem twins_same {name : Text} {xmlns : Option Text} {children : List Node}
    (uniform : ∀ element ∈ named name children, element.1.xmlns = xmlns) (start : Option Text)
    (started : start = none ∨ start = xmlns) :
    twins name start children = (named name children).map Prod.snd := by
  induction children generalizing start with
  | nil => rfl
  | cons node children ih =>
    cases node with
    | attrib attrib => exact ih uniform start started
    | data data => exact ih uniform start started
    | tag tag grandchildren =>
      have split : named name (.tag tag grandchildren :: children) =
          if tag.name = name then (tag, grandchildren) :: named name children
          else named name children := by
        rw [named, elements, filterMap_cons]
        change List.filter _ ((tag, grandchildren) :: elements children) = _
        rw [filter_cons]
        simp only [decide_eq_true_eq]
        rfl
      rw [split] at uniform ⊢
      rw [twins]
      by_cases here : tag.name = name
      · rw [if_pos here] at uniform ⊢
        have same := uniform _ mem_cons_self
        have reached : start = none ∨ tag.xmlns = start := by
          obtain absent | present := started
          · exact .inl absent
          · exact .inr (same.trans present.symm)
        rw [if_pos ⟨here, reached⟩, map_cons, ih (fun element member =>
          uniform element (mem_cons_of_mem _ member)) tag.xmlns (.inr same)]
      · rw [if_neg here] at uniform ⊢
        rw [if_neg fun both => here both.1]
        exact ih uniform start started

theorem childrenNamed_eq {name : Text} {children : List Node}
    (uniform : ∀ first ∈ named name children, ∀ second ∈ named name children,
      first.1.xmlns = second.1.xmlns) :
    childrenNamed children name = (named name children).map Prod.snd := by
  rw [childrenNamed]
  cases all : named name children with
  | nil =>
    have none_ : ∀ element ∈ named name children, element.1.xmlns = none := by
      rw [all]
      exact fun _ member => absurd member not_mem_nil
    rw [twins_same none_ none (.inl rfl), all]
  | cons head rest =>
    have headIn : head ∈ named name children := by
      rw [all]
      exact mem_cons_self
    rw [twins_same (fun element member => uniform element member head headIn) none (.inl rfl), all]

def Alike (depth : Nat) (first second : Element) : Prop :=
  first.1 = second.1 ∧ Reordered depth first.2 second.2

theorem reordered_others (reordered : Reordered depth first second) :
    others first = others second := by
  cases depth with
  | zero => rw [show first = second from reordered]
  | succ depth => exact reordered.1

theorem reordered_elements (reordered : Reordered (depth + 1) first second) :
    ∃ middle, List.Forall₂ (Alike depth) (elements first) middle ∧ middle.Perm (elements second) :=
  reordered.2

theorem reordered_getAttrib (reordered : Reordered depth first second) (attr : Text) :
    getAttrib first attr = getAttrib second attr := by
  rw [← getAttrib_others, reordered_others reordered, getAttrib_others]

theorem reordered_refl (depth : Nat) (children : List Node) : Reordered depth children children := by
  induction depth generalizing children with
  | zero => rfl
  | succ depth ih => exact ⟨rfl, _, forall₂_same.mpr fun element _ => ⟨rfl, ih element.2⟩, .refl _⟩

theorem forall₂_filterMap {Source Image : Type} {alike : Source → Source → Prop}
    {same : Image → Image → Prop} {image : Source → Option Image} {first second : List Source}
    (all : List.Forall₂ alike first second)
    (kept : ∀ left right, alike left right → Option.Rel same (image left) (image right)) :
    List.Forall₂ same (first.filterMap image) (second.filterMap image) := by
  induction all with
  | nil => exact .nil
  | @cons left right _ _ pair _ ih =>
    have both := kept left right pair
    rw [filterMap_cons, filterMap_cons]
    cases isLeft : image left with
    | none =>
      rw [isLeft] at both
      cases isRight : image right with
      | none => exact ih
      | some value =>
        rw [isRight] at both
        cases both
    | some value =>
      rw [isLeft] at both
      cases isRight : image right with
      | none =>
        rw [isRight] at both
        cases both
      | some other =>
        rw [isRight] at both
        cases both with
        | some related => exact .cons related ih

theorem reordered_shallow {Image : Type} (reordered : Reordered (depth + 1) first second)
    (image : Element → Option Image)
    (kept : ∀ left right, Alike depth left right → image left = image right) :
    ((elements first).filterMap image).Perm ((elements second).filterMap image) := by
  obtain ⟨middle, all, perm⟩ := reordered_elements reordered
  have equal : List.Forall₂ Eq ((elements first).filterMap image) (middle.filterMap image) := by
    apply forall₂_filterMap all
    intro left right pair
    rw [kept left right pair]
    cases image right with
    | none => exact .none
    | some value => exact .some rfl
  rw [forall₂_eq_eq_eq] at equal
  rw [equal]
  exact perm.filterMap image

theorem identitiesOf_reordered (reordered : Reordered (depth + 1) first second) :
    (identitiesOf first).Perm (identitiesOf second) := by
  apply reordered_shallow reordered
  intro left right alike
  have attribute_ := reordered_getAttrib alike.2
  rw [identityOf, identityOf, alike.1, parseIdentity, parseIdentity, attribute_, attribute_,
    attribute_, attribute_]

theorem featuresOf_reordered (reordered : Reordered (depth + 1) first second) :
    (featuresOf first).Perm (featuresOf second) := by
  apply reordered_shallow reordered
  intro left right alike
  rw [featureOf, featureOf, alike.1, reordered_getAttrib alike.2]

theorem formsOf_reordered (reordered : Reordered (depth + 1) first second) :
    ∃ middle, List.Forall₂ (Reordered depth) (formsOf first) middle ∧
      middle.Perm (formsOf second) := by
  obtain ⟨middle, all, perm⟩ := reordered_elements reordered
  refine ⟨middle.filterMap formOf, forall₂_filterMap all ?_, perm.filterMap formOf⟩
  intro left right alike
  rw [formOf, formOf, alike.1]
  split
  · exact .some alike.2
  · exact .none

theorem named_reordered (reordered : Reordered (depth + 1) first second) (name : Text) :
    ∃ middle, List.Forall₂ (Alike depth) (named name first) middle ∧
      middle.Perm (named name second) := by
  obtain ⟨middle, all, perm⟩ := reordered_elements reordered
  refine ⟨middle.filter (·.1.name = name), ?_, perm.filter _⟩
  rw [named, ← filterMap_eq_filter]
  apply forall₂_filterMap all
  intro left right alike
  simp only [Option.guard, alike.1]
  split
  · exact .some alike
  · exact .none

theorem dataOf_alike {first second : Element} (alike : Alike 1 first second) :
    (dataOf first).Perm (dataOf second) := by
  obtain ⟨middle, all, perm⟩ := named_reordered alike.2 (lit "value")
  have equal : named (lit "value") first.2 = middle := by
    rw [← forall₂_eq_eq_eq]
    apply all.imp
    intro left right same
    exact Prod.ext same.1 same.2
  rw [dataOf, dataOf, equal]
  exact perm.map _

theorem varOf_alike {first second : Element} (alike : Alike depth first second) :
    varOf first = varOf second := reordered_getAttrib alike.2 _

theorem forall₂_origin {Source Image : Type} {alike : Source → Image → Prop} {first : List Source}
    {second : List Image} (all : List.Forall₂ alike first second) {image : Image}
    (member : image ∈ second) : ∃ origin ∈ first, alike origin image := by
  induction all with
  | nil => cases member
  | @cons left right firsts seconds pair _ ih =>
    rw [mem_cons] at member
    obtain rfl | later := member
    · exact ⟨left, mem_cons_self, pair⟩
    · obtain ⟨origin, inside, alike⟩ := ih later
      exact ⟨origin, mem_cons_of_mem _ inside, alike⟩

theorem named_origin (reordered : Reordered (depth + 1) first second) {name : Text}
    {element : Element} (member : element ∈ named name second) :
    ∃ origin ∈ named name first, Alike depth origin element := by
  obtain ⟨middle, all, perm⟩ := named_reordered reordered name
  exact forall₂_origin all (perm.mem_iff.mpr member)

theorem uniform_reordered (reordered : Reordered 2 first second) (uniform : Uniform first) :
    Uniform second := by
  constructor
  · intro left leftIn right rightIn
    obtain ⟨originLeft, insideLeft, alikeLeft⟩ := named_origin reordered leftIn
    obtain ⟨originRight, insideRight, alikeRight⟩ := named_origin reordered rightIn
    rw [← alikeLeft.1, ← alikeRight.1]
    exact uniform.1 originLeft insideLeft originRight insideRight
  · intro field fieldIn left leftIn right rightIn
    obtain ⟨origin, inside, alike⟩ := named_origin reordered fieldIn
    obtain ⟨originLeft, insideLeft, alikeLeft⟩ := named_origin alike.2 leftIn
    obtain ⟨originRight, insideRight, alikeRight⟩ := named_origin alike.2 rightIn
    rw [← alikeLeft.1, ← alikeRight.1]
    exact uniform.2 origin inside originLeft insideLeft originRight insideRight

theorem formtype_eq {form : List Node} (uniform : Uniform form) :
    jabberXDataGetFormtype form = (typesOf form).head?.join := by
  rw [jabberXDataGetFormtype, childrenNamed_eq uniform.1, typesOf]
  change ((List.map Prod.snd (fieldsOf form)).find? _).bind _ = _
  have visited : ∀ field ∈ fieldsOf form,
      childrenNamed field.2 (lit "value") = (named (lit "value") field.2).map Prod.snd :=
    fun field member => childrenNamed_eq (uniform.2 field member)
  generalize fieldsOf form = fields at visited
  induction fields with
  | nil => rfl
  | cons field fields ih =>
    have later := ih fun other member => visited other (mem_cons_of_mem _ member)
    have here := visited field mem_cons_self
    rw [map_cons, find?_cons, filter_cons]
    by_cases typed : varOf field = some formType
    · have same : getAttrib field.2 (lit "var") = some formType := typed
      simp only [same, typed, decide_true, if_true, Option.bind_some, flatMap_cons]
      rw [here, typeData, dataOf]
      cases named (lit "value") field.2 with
      | nil => rfl
      | cons value values => rfl
    · have other : ¬getAttrib field.2 (lit "var") = some formType := typed
      simp only [other, typed, decide_false, if_false, Bool.false_eq_true]
      exact later

theorem sortTexts_eq {texts sorted : List Text} (perm : sorted.Perm texts)
    (inOrder : sorted.Pairwise (strcmp · · ≤ 0)) : sorted = sortTexts texts :=
  eq_of_pairwise_perm strcmp_signed (fun first second => (strcmp_eq_zero first second).mp) inOrder
    (strcmp_signed.mergeSort_sorted texts) (perm.trans (mergeSort_perm _ _).symm)

theorem sortTexts_perm {first second : List Text} (perm : first.Perm second) :
    sortTexts first = sortTexts second :=
  sortTexts_eq ((mergeSort_perm _ _).trans perm) (strcmp_signed.mergeSort_sorted first)

def fieldOutput (field : Element) : List Text :=
  if varOf field = some formType then [] else fieldWords field

theorem sort_values {data : List (Option Text)}
    (present : 2 ≤ data.length → ∀ text ∈ data, text.isSome) :
    ∃ values, sort compareStrings data = some values ∧
      values.map (·.getD []) = sortTexts (data.map (·.getD [])) := by
  obtain ⟨values, sorted⟩ := Option.isSome_iff_exists.mp ((sort_isSome_iff data).mpr present)
  refine ⟨values, sorted, ?_⟩
  apply sortTexts_eq ((sort_perm sorted).map _)
  rw [pairwise_map]
  apply (sort_sorted (keyCompare_lawful strcmp_signed) sorted).total
  intro first second sign compared
  obtain ⟨left, right, isLeft, isRight, same⟩ := keyCompare_eq_some_iff.mp compared
  change first = some left at isLeft
  change second = some right at isRight
  rw [isLeft, isRight]
  exact same

theorem readField_ok {field : Element} (visited :
    childrenNamed field.2 (lit "value") = (named (lit "value") field.2).map Prod.snd)
    (ok : FieldOk field) :
    ∃ read, readField field.2 = some read ∧ read.var = varOf field ∧
      read.words = fieldOutput field := by
  have data : (childrenNamed field.2 (lit "value")).map getData = dataOf field := by
    rw [visited, List.map_map]
    rfl
  obtain ⟨values, sorted, texts⟩ := sort_values ok.values
  refine ⟨{ var := varOf field, values }, ?_, rfl, ?_⟩
  · rw [readField, data, sorted]
    rfl
  · rw [JabberDataFormField.words, fieldOutput, fieldWords, texts]

end Purple.Jabber.CapsHash
