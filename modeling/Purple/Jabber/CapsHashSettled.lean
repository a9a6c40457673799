/-
Where the conditions hold the verification string is the same for every order.
-/

import Purple.Jabber.CapsHashOrder

namespace Purple.Jabber.CapsHash

open List Option Sax Xml SortedList

/-! ### The text of a form -/

variable {form first second : List Node}

theorem compareVars_signed : Signed compareVars :=
  strcmp_signed.on fun field : Element => (varOf field).getD []

theorem sorted_vars {fields : List Element} (sorted : Sorted (keyCompare varOf strcmp) fields) :
    fields.Pairwise (compareVars · · ≤ 0) := by
  apply sorted.total
  intro first second sign compared
  obtain ⟨left, right, isLeft, isRight, same⟩ := keyCompare_eq_some_iff.mp compared
  rw [compareVars, isLeft, isRight]
  exact same

theorem compareVars_eq_zero {first second : Element} (named : (varOf first).isSome)
    (namedSecond : (varOf second).isSome) (same : compareVars first second = 0) :
    varOf first = varOf second := by
  obtain ⟨left, isLeft⟩ := isSome_iff_exists.mp named
  obtain ⟨right, isRight⟩ := isSome_iff_exists.mp namedSecond
  rw [compareVars, isLeft, isRight] at same
  rw [isLeft, isRight, (strcmp_eq_zero left right).mp same]

theorem fieldOutput_flatMap (fields : List Element) :
    fields.flatMap fieldOutput =
      (fields.filter (varOf · ≠ some formType)).flatMap fieldWords := by
  induction fields with
  | nil => rfl
  | cons field fields ih =>
    rw [flatMap_cons, ih, filter_cons, fieldOutput]
    by_cases typed : varOf field = some formType
    · rw [if_pos typed, if_neg (by simpa using typed)]
      rfl
    · rw [if_neg typed, if_pos (by simpa using typed), flatMap_cons]

theorem sorted_words (ok : FormOk form) {sorted : List Element}
    (inOrder : sorted.Pairwise (compareVars · · ≤ 0)) (perm : sorted.Perm (fieldsOf form)) :
    sorted.flatMap fieldOutput =
      (((fieldsOf form).filter (varOf · ≠ some formType)).mergeSort fun first second =>
        decide (compareVars first second ≤ 0)).flatMap fieldWords := by
  rw [fieldOutput_flatMap]
  apply flatMap_pairwise_perm compareVars_signed (inOrder.filter _)
    (compareVars_signed.mergeSort_sorted _)
  · exact (perm.filter _).trans (mergeSort_perm _ _).symm
  · intro left leftIn right rightIn same
    obtain ⟨leftSorted, other⟩ := mem_filter.mp leftIn
    have leftField := perm.mem_iff.mp leftSorted
    have rightField := perm.mem_iff.mp (mem_filter.mp rightIn).1
    exact ok.commute left leftField right rightField
      (compareVars_eq_zero (ok.fields left leftField).var (ok.fields right rightField).var same)
      (by simpa using other)

theorem escapeAll_flatMap {Item : Type} (items : List Item) (words : Item → List Text) :
    escapeAll (items.flatMap words) = items.flatMap fun item => escapeAll (words item) := by
  induction items with
  | nil => rfl
  | cons item items ih => rw [flatMap_cons, escapeAll_append, ih, flatMap_cons]

theorem formText_sorted (uniform : Uniform form)
    (fieldsOk : ∀ field ∈ fieldsOf form, FieldOk field) :
    ∃ sorted, sort (keyCompare varOf strcmp) (fieldsOf form) = some sorted ∧
      formText form = some (textOf (escapeAll
        (typeOf form :: sorted.flatMap fieldOutput))) := by
  have visited : ∀ field ∈ fieldsOf form,
      childrenNamed field.2 (lit "value") = (named (lit "value") field.2).map Prod.snd :=
    fun field member => childrenNamed_eq (uniform.2 field member)
  let read (field : Element) : JabberDataFormField :=
    (readField field.2).getD { var := none, values := [] }
  have reads : ∀ field ∈ fieldsOf form, readField field.2 = some (read field) ∧
      (read field).var = varOf field ∧ (read field).words = fieldOutput field := by
    intro field member
    obtain ⟨result, isRead, isVar, isWords⟩ := readField_ok (visited field member) (fieldsOk field member)
    have same : read field = result := by
      change (readField field.2).getD _ = result
      rw [isRead]
      rfl
    rw [same]
    exact ⟨isRead, isVar, isWords⟩
  have all : (childrenNamed form (lit "field")).mapM readField = some ((fieldsOf form).map read) := by
    rw [childrenNamed_eq uniform.1, mapM_map]
    exact mapM_of_some fun field member => (reads field member).1
  have defined : (sort (keyCompare varOf strcmp) (fieldsOf form)).isSome :=
    (sort_isSome_iff (fieldsOf form)).mpr fun _ field member => (fieldsOk field member).var
  obtain ⟨sorted, isSorted⟩ := isSome_iff_exists.mp defined
  refine ⟨sorted, isSorted, ?_⟩
  have inside {field : Element} (member : field ∈ sorted) : field ∈ fieldsOf form :=
    (sort_perm isSorted).mem_iff.mp member
  have images : sort jabberCapsXdataFieldCompare ((fieldsOf form).map read) =
      some (sorted.map read) := by
    rw [jabberCapsXdataFieldCompare, sort_map _ fun field member => (reads field member).2.1,
      isSorted]
    rfl
  have texts : (sorted.map read).mapM fieldText =
      some (sorted.map fun field => textOf (escapeAll (fieldOutput field))) := by
    rw [mapM_map]
    apply mapM_of_some
    intro field member
    obtain ⟨_, isVar, isWords⟩ := reads field (inside member)
    rw [Function.comp_apply, fieldText_words, isWords]
    rw [isVar]
    exact (fieldsOk field (inside member)).var
  rw [formText, jabberCapsXdataGetFields, all, bind_some, images]
  change ((sorted.map read).mapM fieldText).bind _ = _
  rw [texts, formtype_eq uniform]
  change some (appendEscapedString ((typesOf form).head?.join) ++ _) = _
  rw [textOf_flatMap, ← escapeAll_flatMap]
  rfl

theorem formText_words (uniform : Uniform form) (ok : FormOk form) :
    formText form = some (textOf (escapeAll (formWords form))) := by
  obtain ⟨sorted, isSorted, text⟩ := formText_sorted uniform ok.fields
  have inOrder := sorted_vars (sort_sorted (keyCompare_lawful strcmp_signed) isSorted)
  rw [text, formWords, sorted_words ok inOrder (sort_perm isSorted)]

/-! ### Forms that differ in the order of their fields -/

theorem fieldWords_alike {first second : Element} (alike : Alike 1 first second) :
    fieldWords first = fieldWords second := by
  rw [fieldWords, fieldWords, varOf_alike alike, sortTexts_perm ((dataOf_alike alike).map _)]

theorem fieldOutput_alike {first second : Element} (alike : Alike 1 first second) :
    fieldOutput first = fieldOutput second := by
  rw [fieldOutput, fieldOutput, varOf_alike alike, fieldWords_alike alike]

theorem FieldOk.alike {first second : Element} (ok : FieldOk first) (alike : Alike 1 first second) :
    FieldOk second where
  var := varOf_alike alike ▸ ok.var
  values := by
    intro long data member
    have perm := dataOf_alike alike
    exact ok.values (perm.length_eq ▸ long) data (perm.mem_iff.mpr member)

theorem typeData_alike {first second : Element} (alike : Alike 1 first second) :
    (typeData first).Perm (typeData second) := by
  have perm := dataOf_alike alike
  rw [typeData, typeData]
  by_cases empty : dataOf first = []
  · rw [empty] at perm
    rw [if_pos empty, if_pos (nil_perm.mp perm)]
  · have other : dataOf second ≠ [] := by
      intro emptySecond
      rw [emptySecond] at perm
      exact empty (perm_nil.mp perm)
    rw [if_neg empty, if_neg other]
    exact perm

theorem typesOf_alike {first second : List Element} (all : List.Forall₂ (Alike 1) first second) :
    ((first.filter (varOf · = some formType)).flatMap typeData).Perm
      ((second.filter (varOf · = some formType)).flatMap typeData) := by
  induction all with
  | nil => exact .refl _
  | @cons left right firsts seconds pair _ ih =>
    rw [filter_cons, filter_cons, varOf_alike pair]
    split
    · rw [flatMap_cons, flatMap_cons]
      exact (typeData_alike pair).append ih
    · exact ih

theorem typesOf_reordered (reordered : Reordered 2 first second) :
    (typesOf first).Perm (typesOf second) := by
  obtain ⟨middle, all, perm⟩ := named_reordered reordered (lit "field")
  exact (typesOf_alike all).trans ((perm.filter _).flatMap_right _)

theorem FormOk.reordered {first second : List Node} (ok : FormOk first)
    (reordered : Reordered 2 first second) : FormOk second where
  fields := by
    intro field member
    obtain ⟨origin, inside, alike⟩ := named_origin reordered member
    exact (ok.fields origin inside).alike alike
  commute := by
    intro left leftIn right rightIn same other
    obtain ⟨originLeft, insideLeft, alikeLeft⟩ := named_origin reordered leftIn
    obtain ⟨originRight, insideRight, alikeRight⟩ := named_origin reordered rightIn
    rw [← varOf_alike alikeLeft] at same other
    rw [← varOf_alike alikeRight] at same
    rw [← fieldWords_alike alikeLeft, ← fieldWords_alike alikeRight]
    exact ok.commute originLeft insideLeft originRight insideRight same other
  types := by
    intro left leftIn right rightIn
    have perm := typesOf_reordered reordered
    exact ok.types left (perm.mem_iff.mpr leftIn) right (perm.mem_iff.mpr rightIn)

theorem type_reordered (ok : FormOk first) (reordered : Reordered 2 first second) :
    typeOf first = typeOf second := by
  rw [typeOf, typeOf]
  have perm := typesOf_reordered reordered
  cases types : typesOf first with
  | nil =>
    rw [types] at perm
    rw [nil_perm.mp perm]
  | cons type rest =>
    cases typesSecond : typesOf second with
    | nil =>
      rw [types, typesSecond] at perm
      exact absurd perm.symm (by simp)
    | cons other more =>
      have inside : other ∈ typesOf first := by
        apply perm.mem_iff.mpr
        rw [typesSecond]
        exact mem_cons_self
      have here : type ∈ typesOf first := by
        rw [types]
        exact mem_cons_self
      exact ok.types type here other inside

theorem map_of_forall₂ {Source Image : Type} {alike : Source → Source → Prop}
    {image : Source → Image} {first second : List Source} (all : List.Forall₂ alike first second)
    (kept : ∀ left ∈ first, ∀ right, alike left right → image left = image right) :
    first.map image = second.map image := by
  induction all with
  | nil => rfl
  | @cons left right _ _ pair _ ih =>
    rw [map_cons, map_cons, kept left mem_cons_self right pair,
      ih fun other member => kept other (mem_cons_of_mem _ member)]

theorem formWords_reordered (ok : FormOk first) (reordered : Reordered 2 first second) :
    formWords first = formWords second := by
  obtain ⟨middle, all, perm⟩ := named_reordered reordered (lit "field")
  have sortedSecond := compareVars_signed.mergeSort_sorted (fieldsOf second)
  have permSecond := (mergeSort_perm (fieldsOf second) fun left right =>
    decide (compareVars left right ≤ 0)).trans perm.symm
  -- the fields of the first form in the order that sorts those of the second
  obtain ⟨sorted, alike, permFirst⟩ := perm_comp_forall₂ permSecond all.flip
  have vars : sorted.map varOf = ((fieldsOf second).mergeSort fun left right =>
      decide (compareVars left right ≤ 0)).map varOf :=
    map_of_forall₂ alike.flip fun left _ right pair => varOf_alike pair
  have outputs : sorted.map fieldOutput = ((fieldsOf second).mergeSort fun left right =>
      decide (compareVars left right ≤ 0)).map fieldOutput :=
    map_of_forall₂ alike.flip fun left _ right pair => fieldOutput_alike pair
  have inOrder : sorted.Pairwise (compareVars · · ≤ 0) := by
    have keys : (sorted.map varOf).Pairwise fun left right =>
        strcmp (left.getD []) (right.getD []) ≤ 0 := by
      rw [vars, pairwise_map]
      exact sortedSecond
    rw [pairwise_map] at keys
    exact keys
  rw [formWords, formWords, type_reordered ok reordered, ← sorted_words ok inOrder permFirst,
    ← sorted_words (ok.reordered reordered) sortedSecond (mergeSort_perm _ _),
    flatMap_def, flatMap_def, outputs]

/-! ### The string -/

theorem parseChildren_eq (info : JabberCapsClientInfo) (children : List Node) :
    parseChildren info children =
      { identities := info.identities ++ identitiesOf children
        features := (featuresOf children).reverse ++ info.features
        forms := info.forms ++ formsOf children } := by
  induction children generalizing info with
  | nil =>
    rw [parseChildren, identitiesOf, featuresOf, formsOf]
    simp only [elements, filterMap_nil, append_nil, reverse_nil, nil_append]
  | cons node children ih =>
    cases node with
    | attrib attrib => exact ih info
    | data data => exact ih info
    | tag tag child =>
      have identities : identitiesOf (.tag tag child :: children) =
          (identityOf (tag, child)).toList ++ identitiesOf children := by
        change ((tag, child) :: elements children).filterMap identityOf = _
        rw [filterMap_cons]
        cases identityOf (tag, child) <;> rfl
      have features : featuresOf (.tag tag child :: children) =
          (featureOf (tag, child)).toList ++ featuresOf children := by
        change ((tag, child) :: elements children).filterMap featureOf = _
        rw [filterMap_cons]
        cases featureOf (tag, child) <;> rfl
      have forms : formsOf (.tag tag child :: children) =
          (formOf (tag, child)).toList ++ formsOf children := by
        change ((tag, child) :: elements children).filterMap formOf = _
        rw [filterMap_cons]
        cases formOf (tag, child) <;> rfl
      rw [parseChildren, ih, identities, features, forms, parseChild, identityOf, featureOf,
        formOf]
      by_cases isIdentity : tag.name = lit "identity"
      · have notFeature : ¬tag.name = lit "feature" := by
          rw [isIdentity]
          decide
        have notForm : ¬isForm tag := by
          rw [isForm, isIdentity]
          exact fun both => absurd both.1 (by decide)
        simp only [if_pos isIdentity, if_neg notFeature, if_neg notForm]
        cases parseIdentity child <;>
          simp only [toList_none, toList_some, nil_append, append_assoc,
            singleton_append]
      · by_cases isFeature : tag.name = lit "feature"
        · have notForm : ¬isForm tag := by
            rw [isForm, isFeature]
            exact fun both => absurd both.1 (by decide)
          simp only [if_neg isIdentity, if_pos isFeature, if_neg notForm]
          cases getAttrib child (lit "var") <;>
            simp only [toList_none, toList_some, nil_append,
              reverse_cons, append_assoc, cons_append]
        · by_cases form : isForm tag
          · have shape : tag.name = lit "x" ∧ tag.xmlns = some (lit "jabber:x:data") := form
            simp only [if_neg isIdentity, if_neg isFeature, if_pos form, if_pos shape,
              toList_none, toList_some, nil_append, append_assoc]
          · have shape : ¬(tag.name = lit "x" ∧ tag.xmlns = some (lit "jabber:x:data")) := form
            simp only [if_neg isIdentity, if_neg isFeature, if_neg form, if_neg shape,
              toList_none, nil_append]

def infoOf (children : List Node) : JabberCapsClientInfo where
  identities := identitiesOf children
  features := (featuresOf children).reverse
  forms := formsOf children

theorem parseChildren_infoOf (children : List Node) :
    parseChildren { identities := [], features := [], forms := [] } children = infoOf children := by
  rw [parseChildren_eq, infoOf]
  simp only [nil_append, append_nil]

/-- Every form has the namespaces and fields it needs, and with more than one form each
has a type. -/
structure FormsOk (forms : List (List Node)) : Prop where
  uniform : ∀ form ∈ forms, Uniform form
  ok : ∀ form ∈ forms, FormOk form
  typed : 2 ≤ forms.length → ∀ form ∈ forms, typesOf form ≠ [] ∧ ∀ type ∈ typesOf form, type.isSome

theorem formtype_typed (uniform : Uniform form)
    (typed : typesOf form ≠ [] ∧ ∀ type ∈ typesOf form, type.isSome) :
    jabberXDataGetFormtype form = some (typeOf form) := by
  rw [formtype_eq uniform, typeOf]
  cases types : typesOf form with
  | nil => exact absurd types typed.1
  | cons type rest =>
    have present := typed.2 type (by rw [types]; exact mem_cons_self)
    obtain ⟨text, rfl⟩ := isSome_iff_exists.mp present
    rfl

def compareTypes (first second : List Node) : Int := strcmp (typeOf first) (typeOf second)

theorem compareTypes_signed : Signed compareTypes := strcmp_signed.on typeOf

theorem sort_forms {forms : List (List Node)} (good : FormsOk forms) :
    ∃ sorted, sort jabberXdataCompare forms = some sorted ∧ sorted.Perm forms ∧
      sorted.Pairwise (compareTypes · · ≤ 0) := by
  have defined : (sort jabberXdataCompare forms).isSome := by
    apply (sort_isSome_iff forms).mpr
    intro several form member
    rw [formtype_typed (good.uniform form member) (good.typed several form member)]
    rfl
  obtain ⟨sorted, isSorted⟩ := isSome_iff_exists.mp defined
  have perm := sort_perm isSorted
  refine ⟨sorted, isSorted, perm, ?_⟩
  by_cases several : 2 ≤ forms.length
  · apply List.Pairwise.imp_of_mem _ (sort_sorted (keyCompare_lawful strcmp_signed) isSorted)
    intro first second firstIn secondIn inOrder
    obtain ⟨sign, compared, below⟩ := inOrder
    have keyed {form : List Node} (member : form ∈ sorted) :
        jabberXDataGetFormtype form = some (typeOf form) :=
      formtype_typed (good.uniform form (perm.mem_iff.mp member))
        (good.typed several form (perm.mem_iff.mp member))
    obtain ⟨left, right, isLeft, isRight, same⟩ := keyCompare_eq_some_iff.mp compared
    rw [keyed firstIn] at isLeft
    rw [keyed secondIn] at isRight
    cases isLeft
    cases isRight
    rw [compareTypes, same]
    exact below
  · cases sorted with
    | nil => exact .nil
    | cons first rest =>
      cases rest with
      | nil => exact pairwise_singleton _ _
      | cons second more =>
        have length := perm.length_eq
        simp only [length_cons] at length
        omega

theorem verificationString_eq {children : List Node} (good : FormsOk (formsOf children)) :
    ∃ identities forms, sort (keyCompare some jabberIdentityCompare) (identitiesOf children) =
        some identities ∧ sort jabberXdataCompare (formsOf children) = some forms ∧
      verificationString (infoOf children) =
        some (textOf (identities.map identityToken ++ escapeAll (sortTexts (featuresOf children)) ++
          forms.flatMap fun form => escapeAll (formWords form))) := by
  have defined : (sort (keyCompare some jabberIdentityCompare) (identitiesOf children)).isSome :=
    (sort_isSome_iff _).mpr fun _ _ _ => rfl
  obtain ⟨identities, sortedIdentities⟩ := isSome_iff_exists.mp defined
  obtain ⟨forms, sortedForms, perm, _⟩ := sort_forms good
  have given : ∀ text ∈ (infoOf children).features.map some, text.isSome := by
    intro text member
    obtain ⟨feature, _, rfl⟩ := List.mem_map.mp member
    rfl
  obtain ⟨features, sortedFeatures, featureTexts⟩ := sort_values fun _ => given
  refine ⟨identities, forms, sortedIdentities, sortedForms, ?_⟩
  have texts : forms.mapM formText =
      some (forms.map fun form => textOf (escapeAll (formWords form))) :=
    mapM_of_some fun form member => formText_words (good.uniform form (perm.mem_iff.mp member))
      (good.ok form (perm.mem_iff.mp member))
  have identityTexts : identities.flatMap identityText = textOf (identities.map identityToken) := by
    rw [textOf, flatMap_map]
    rfl
  have featureText : features.flatMap appendEscapedString =
      textOf (escapeAll (sortTexts (featuresOf children))) := by
    have stripped : ((infoOf children).features.map some).map (·.getD []) =
        (featuresOf children).reverse := by
      rw [List.map_map]
      exact List.map_id _
    rw [stripped, sortTexts_perm (reverse_perm _)] at featureTexts
    rw [← featureTexts, textOf, escapeAll, List.map_map, flatMap_map]
    rfl
  rw [verificationString]
  change (sort (keyCompare some jabberIdentityCompare) (identitiesOf children)).bind _ = _
  rw [sortedIdentities, bind_some]
  change (sort compareStrings ((infoOf children).features.map some)).bind _ = _
  rw [sortedFeatures, bind_some]
  change (sort jabberXdataCompare (formsOf children)).bind _ = _
  rw [sortedForms, bind_some]
  change (forms.mapM formText).bind _ = _
  rw [texts, bind_some, identityTexts, featureText, textOf_flatMap, textOf_append,
    textOf_append]

/-! ### Every order gives the same string -/

theorem form_origin (reordered : Reordered 3 first second) (member : form ∈ formsOf second) :
    ∃ origin ∈ formsOf first, Reordered 2 origin form := by
  obtain ⟨middle, all, perm⟩ := formsOf_reordered reordered
  exact forall₂_origin all (perm.mem_iff.mpr member)

theorem FormsOk.reordered {first second : List Node} (good : FormsOk (formsOf first))
    (reordered : Reordered 3 first second) : FormsOk (formsOf second) where
  uniform := by
    intro form member
    obtain ⟨origin, inside, alike⟩ := form_origin reordered member
    exact uniform_reordered alike (good.uniform origin inside)
  ok := by
    intro form member
    obtain ⟨origin, inside, alike⟩ := form_origin reordered member
    exact (good.ok origin inside).reordered alike
  typed := by
    intro several form member
    obtain ⟨middle, all, perm⟩ := formsOf_reordered reordered
    have length : (formsOf first).length = (formsOf second).length :=
      all.length_eq.trans perm.length_eq
    obtain ⟨origin, inside, alike⟩ := form_origin reordered member
    obtain ⟨filled, present⟩ := good.typed (length ▸ several) origin inside
    have types := typesOf_reordered alike
    constructor
    · intro empty
      rw [empty] at types
      exact filled (perm_nil.mp types)
    · exact fun type typeIn => present type (types.mem_iff.mpr typeIn)

theorem identities_reordered (settled : Settled first) (reordered : Reordered 3 first second)
    {sorted sortedSecond : List JabberIdentity}
    (isSorted : sort (keyCompare some jabberIdentityCompare) (identitiesOf first) = some sorted)
    (isSortedSecond : sort (keyCompare some jabberIdentityCompare) (identitiesOf second) =
      some sortedSecond) : sorted.map identityToken = sortedSecond.map identityToken := by
  have inOrder {list sorted : List JabberIdentity}
      (isSorted : sort (keyCompare some jabberIdentityCompare) list = some sorted) :
      sorted.Pairwise (jabberIdentityCompare · · ≤ 0) := by
    apply (sort_sorted (keyCompare_lawful jabberIdentityCompare_signed) isSorted).total
    intro left right sign compared
    exact Option.some.inj compared
  have perm := sort_perm isSorted
  rw [map_eq_flatMap, map_eq_flatMap]
  apply flatMap_pairwise_perm jabberIdentityCompare_signed (inOrder isSorted)
    (inOrder isSortedSecond)
  · exact (perm.trans (identitiesOf_reordered reordered)).trans (sort_perm isSortedSecond).symm
  · intro left leftIn right rightIn same
    obtain ⟨category, type, lang⟩ := (jabberIdentityCompare_eq_zero left right).mp same
    have name := settled.identities left (perm.mem_iff.mp leftIn) right (perm.mem_iff.mp rightIn)
      category type lang
    have token : identityToken left = identityToken right := by
      rw [identityToken, identityToken, category, type, lang, name]
    rw [token]

theorem forms_reordered (good : FormsOk (formsOf first)) (settled : Settled first)
    (reordered : Reordered 3 first second) {sorted sortedSecond : List (List Node)}
    (isSorted : sort jabberXdataCompare (formsOf first) = some sorted)
    (isSortedSecond : sort jabberXdataCompare (formsOf second) = some sortedSecond) :
    (sorted.flatMap fun form => escapeAll (formWords form)) =
      sortedSecond.flatMap fun form => escapeAll (formWords form) := by
  obtain ⟨_, again, perm, inOrder⟩ := sort_forms good
  rw [isSorted] at again
  cases again
  obtain ⟨_, again, permSecond, inOrderSecond⟩ := sort_forms (good.reordered reordered)
  rw [isSortedSecond] at again
  cases again
  obtain ⟨middle, all, permMiddle⟩ := formsOf_reordered reordered
  -- the forms of the first query in the order that sorts those of the second
  obtain ⟨row, alike, permRow⟩ :=
    perm_comp_forall₂ (permSecond.trans permMiddle.symm) all.flip
  have ok : ∀ form ∈ row, FormOk form :=
    fun form member => settled.forms form (permRow.mem_iff.mp member)
  have types : row.map typeOf = sortedSecond.map typeOf :=
    map_of_forall₂ alike.flip fun form member _ pair => type_reordered (ok form member) pair
  have words : row.map formWords = sortedSecond.map formWords :=
    map_of_forall₂ alike.flip fun form member _ pair => formWords_reordered (ok form member) pair
  have inOrderRow : row.Pairwise (compareTypes · · ≤ 0) := by
    have keys : (row.map typeOf).Pairwise (strcmp · · ≤ 0) := by
      rw [types, pairwise_map]
      exact inOrderSecond
    rw [pairwise_map] at keys
    exact keys
  have same : (sorted.flatMap fun form => escapeAll (formWords form)) =
      row.flatMap fun form => escapeAll (formWords form) := by
    apply flatMap_pairwise_perm compareTypes_signed inOrder inOrderRow (perm.trans permRow.symm)
    intro left leftIn right rightIn equal
    have commute := settled.commute left (perm.mem_iff.mp leftIn) right (perm.mem_iff.mp rightIn)
      ((strcmp_eq_zero _ _).mp equal)
    rw [← escapeAll_append, ← escapeAll_append, commute]
  have images : (row.map formWords).flatMap escapeAll =
      (sortedSecond.map formWords).flatMap escapeAll := by rw [words]
  rw [flatMap_map, flatMap_map] at images
  exact same.trans images

theorem settled_independent (query : Tag) {children : List Node}
    (uniform : ∀ form ∈ formsOf children, Uniform form) (settled : Settled children) :
    OrderIndependent query children := by
  intro digest reordered moved
  have good : FormsOk (formsOf children) :=
    { uniform, ok := settled.forms, typed := settled.typed }
  obtain ⟨identities, forms, sortedIdentities, sortedForms, string⟩ := verificationString_eq good
  obtain ⟨identitiesMoved, formsMoved, sortedIdentitiesMoved, sortedFormsMoved, stringMoved⟩ :=
    verificationString_eq (good.reordered moved)
  have same : verificationString (infoOf reordered) = verificationString (infoOf children) := by
    rw [string, stringMoved,
      identities_reordered settled moved sortedIdentities sortedIdentitiesMoved,
      forms_reordered good settled moved sortedForms sortedFormsMoved,
      sortTexts_perm (featuresOf_reordered moved)]
  rw [jabberCapsParseClientInfo, jabberCapsParseClientInfo, parseChildren_infoOf,
    parseChildren_infoOf]
  by_cases discoInfo : query.name = lit "query" ∧ query.xmlns = some nsDiscoInfo
  · rw [if_pos discoInfo, if_pos discoInfo]
    cases digest with
    | none => exact ⟨none, rfl, rfl⟩
    | some digest =>
      rw [jabberCapsCalculateHash, jabberCapsCalculateHash, same, string]
      exact ⟨_, rfl, rfl⟩
  · rw [if_neg discoInfo, if_neg discoInfo]
    cases digest <;> exact ⟨none, rfl, rfl⟩

end Purple.Jabber.CapsHash
