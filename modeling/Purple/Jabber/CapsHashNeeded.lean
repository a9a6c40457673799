/-
Where the verification string is the same for every order the conditions hold.

Each part of the conditions is read off two orders that put the elements in question in
front of the others.
-/

import Purple.Jabber.CapsHashFront

namespace Purple.Jabber.CapsHash

open List Option Sax Xml SortedList

/-! ### The string tells its parts -/

/-- What a form writes when its fields are sorted as they stand. -/
def formRow (form : List Node) : List Text :=
  typeOf form :: ((sort (keyCompare varOf strcmp) (fieldsOf form)).getD []).flatMap fieldOutput

variable {form : List Node}

theorem formText_row (uniform : Uniform form) (fieldsOk : ∀ field ∈ fieldsOf form, FieldOk field) :
    formText form = some (textOf (escapeAll (formRow form))) := by
  obtain ⟨sorted, isSorted, text⟩ := formText_sorted uniform fieldsOk
  rw [text, formRow, isSorted]
  rfl

theorem formRow_words (ok : FormOk form) : formRow form = formWords form := by
  have defined : (sort (keyCompare varOf strcmp) (fieldsOf form)).isSome :=
    (sort_isSome_iff (fieldsOf form)).mpr fun _ field member => (ok.fields field member).var
  obtain ⟨sorted, isSorted⟩ := isSome_iff_exists.mp defined
  have inOrder := sorted_vars (sort_sorted (keyCompare_lawful strcmp_signed) isSorted)
  rw [formRow, formWords, isSorted, getD_some, sorted_words ok inOrder (sort_perm isSorted)]

theorem fieldsOk_of_text (uniform : Uniform form) (written : (formText form).isSome) :
    ∀ field ∈ fieldsOf form, FieldOk field := by
  have visited : ∀ field ∈ fieldsOf form,
      childrenNamed field.2 (lit "value") = (named (lit "value") field.2).map Prod.snd :=
    fun field member => childrenNamed_eq (uniform.2 field member)
  obtain ⟨text, written⟩ := isSome_iff_exists.mp written
  rw [formText] at written
  obtain ⟨fields, read, written⟩ := bind_eq_some_iff.mp written
  obtain ⟨texts, shown, _⟩ := bind_eq_some_iff.mp written
  rw [jabberCapsXdataGetFields, childrenNamed_eq uniform.1, mapM_map] at read
  obtain ⟨unsorted, reads, sorted⟩ := bind_eq_some_iff.mp read
  intro field member
  obtain ⟨result, inside, isRead⟩ := mem_of_mapM reads field member
  rw [Function.comp_apply, readField, visited field member, List.map_map] at isRead
  obtain ⟨values, isSorted, rfl⟩ := map_eq_some_iff.mp isRead
  obtain ⟨shownText, _, isText⟩ := mem_of_mapM shown _ ((sort_perm sorted).mem_iff.mpr inside)
  constructor
  · rw [fieldText] at isText
    obtain ⟨var, present, _⟩ := map_eq_some_iff.mp isText
    exact isSome_iff_exists.mpr ⟨var, present⟩
  · exact (sort_isSome_iff (dataOf field)).mp (isSome_iff_exists.mpr ⟨values, isSorted⟩)

structure Written (info : JabberCapsClientInfo) (string : Text) (identities : List JabberIdentity)
    (features : List (Option Text)) (forms : List (List Node)) : Prop where
  sortedIdentities : sort (keyCompare some jabberIdentityCompare) info.identities = some identities
  sortedFeatures : sort compareStrings (info.features.map some) = some features
  sortedForms : sort jabberXdataCompare info.forms = some forms
  fields : ∀ form ∈ info.forms, ∀ field ∈ fieldsOf form, FieldOk field
  string : string = textOf (identities.map identityToken ++
    (escapeAll (features.map (·.getD [])) ++ escapeAll (forms.flatMap formRow)))

theorem exists_written {info : JabberCapsClientInfo} {string : Text}
    (uniform : ∀ form ∈ info.forms, Uniform form) (written : verificationString info = some string) :
    ∃ identities features forms, Written info string identities features forms := by
  rw [verificationString] at written
  obtain ⟨identities, sortedIdentities, written⟩ := bind_eq_some_iff.mp written
  obtain ⟨features, sortedFeatures, written⟩ := bind_eq_some_iff.mp written
  obtain ⟨forms, sortedForms, written⟩ := bind_eq_some_iff.mp written
  obtain ⟨texts, formTexts, written⟩ := bind_eq_some_iff.mp written
  have perm := sort_perm sortedForms
  have fields : ∀ form ∈ info.forms, ∀ field ∈ fieldsOf form, FieldOk field := by
    intro form member
    obtain ⟨text, _, isText⟩ := mem_of_mapM formTexts form (perm.mem_iff.mpr member)
    exact fieldsOk_of_text (uniform form member) (isSome_iff_exists.mpr ⟨text, isText⟩)
  have rows : forms.mapM formText = some (forms.map fun form => textOf (escapeAll (formRow form))) := by
    apply mapM_of_some
    intro form member
    have inside := perm.mem_iff.mp member
    exact formText_row (uniform form inside) (fields form inside)
  rw [rows] at formTexts
  cases formTexts
  refine ⟨identities, features, forms, sortedIdentities, sortedFeatures, sortedForms, fields, ?_⟩
  have identityTexts : identities.flatMap identityText = textOf (identities.map identityToken) := by
    rw [textOf, flatMap_map]
    rfl
  have featureTexts : features.flatMap appendEscapedString =
      textOf (escapeAll (features.map (·.getD []))) := by
    rw [textOf, escapeAll, List.map_map, flatMap_map]
    rfl
  rw [← Option.some.inj written, identityTexts, featureTexts, textOf_flatMap, textOf_append,
    textOf_append, append_assoc, escapeAll_flatMap]

theorem identityTokens_solid (identities : List JabberIdentity) :
    ∀ token ∈ identities.map identityToken, '<' ∉ token := by
  intro token member
  obtain ⟨id, _, rfl⟩ := List.mem_map.mp member
  exact identityToken_solid id

section written

variable {info infoSecond : JabberCapsClientInfo} {string : Text}
  {identities identitiesSecond : List JabberIdentity} {features featuresSecond : List (Option Text)}
  {forms formsSecond : List (List Node)}

theorem Written.tokens (written : Written info string identities features forms)
    (writtenSecond : Written infoSecond string identitiesSecond featuresSecond formsSecond) :
    identities.map identityToken ++
        (escapeAll (features.map (·.getD [])) ++ escapeAll (forms.flatMap formRow)) =
      identitiesSecond.map identityToken ++
        (escapeAll (featuresSecond.map (·.getD [])) ++ escapeAll (formsSecond.flatMap formRow)) := by
  have solid (identities : List JabberIdentity) (first second : List Text) :
      ∀ token ∈ identities.map identityToken ++ (escapeAll first ++ escapeAll second), '<' ∉ token := by
    intro token member
    rw [← escapeAll_append] at member
    obtain inIdentities | inWords := mem_append.mp member
    · exact identityTokens_solid identities token inIdentities
    · exact escapeAll_solid _ token inWords
  exact textOf_injective (solid _ _ _) (solid _ _ _) (written.string.symm.trans writtenSecond.string)

theorem Written.rows (written : Written info string identities features forms)
    (writtenSecond : Written infoSecond string identitiesSecond featuresSecond formsSecond)
    (sameIdentities : info.identities = infoSecond.identities)
    (sameFeatures : info.features = infoSecond.features) :
    forms.flatMap formRow = formsSecond.flatMap formRow := by
  have tokens := written.tokens writtenSecond
  have sortedIdentities := written.sortedIdentities
  rw [sameIdentities, writtenSecond.sortedIdentities] at sortedIdentities
  have sortedFeatures := written.sortedFeatures
  rw [sameFeatures, writtenSecond.sortedFeatures] at sortedFeatures
  rw [Option.some.inj sortedIdentities, Option.some.inj sortedFeatures, append_right_inj,
    append_right_inj] at tokens
  exact escapeAll_injective tokens

theorem Written.identityTokens (written : Written info string identities features forms)
    (writtenSecond : Written infoSecond string identitiesSecond featuresSecond formsSecond)
    (sameFeatures : info.features = infoSecond.features) (sameForms : info.forms = infoSecond.forms) :
    identities.map identityToken = identitiesSecond.map identityToken := by
  have tokens := written.tokens writtenSecond
  have sortedFeatures := written.sortedFeatures
  rw [sameFeatures, writtenSecond.sortedFeatures] at sortedFeatures
  have sortedForms := written.sortedForms
  rw [sameForms, writtenSecond.sortedForms] at sortedForms
  rw [Option.some.inj sortedFeatures, Option.some.inj sortedForms, append_left_inj] at tokens
  exact tokens

end written

/-! ### The conditions -/

def Steady (children : List Node) (string : Text) : Prop :=
  ∀ reordered, Reordered 3 children reordered → verificationString (infoOf reordered) = some string

section steady

variable {children : List Node} {string : Text}

variable {form : List Node}

theorem Steady.written (steady : Steady children string)
    (uniform : ∀ form ∈ formsOf children, Uniform form) {query : List Node}
    (moved : Reordered 3 children query) :
    ∃ identities features forms, Written (infoOf query) string identities features forms := by
  apply exists_written _ (steady query moved)
  intro form member
  obtain ⟨origin, inside, alike⟩ := form_origin moved member
  exact uniform_reordered alike (uniform origin inside)

theorem Steady.fields (steady : Steady children string)
    (uniform : ∀ form ∈ formsOf children, Uniform form) :
    ∀ form ∈ formsOf children, ∀ field ∈ fieldsOf form, FieldOk field := by
  obtain ⟨_, _, _, written⟩ := steady.written uniform (reordered_refl 3 children)
  exact written.fields

theorem Steady.rows (steady : Steady children string)
    (uniform : ∀ form ∈ formsOf children, Uniform form) (member : form ∈ formsOf children) :
    ∃ forms, (formsOf children).Perm (form :: forms) ∧
      ∀ first second, Reordered 2 form first → Reordered 2 form second →
        ∃ row rowSecond, sort jabberXdataCompare (first :: forms) = some row ∧
          sort jabberXdataCompare (second :: forms) = some rowSecond ∧
          row.flatMap formRow = rowSecond.flatMap formRow := by
  obtain ⟨identities, features, forms, perm, orders⟩ := form_front member
  refine ⟨forms, perm, ?_⟩
  intro first second moved movedSecond
  obtain ⟨query, reordered, isInfo⟩ := orders first moved
  obtain ⟨querySecond, reorderedSecond, isInfoSecond⟩ := orders second movedSecond
  obtain ⟨_, _, row, written⟩ := steady.written uniform reordered
  obtain ⟨_, _, rowSecond, writtenSecond⟩ := steady.written uniform reorderedSecond
  rw [isInfo] at written
  rw [isInfoSecond] at writtenSecond
  exact ⟨row, rowSecond, written.sortedForms, writtenSecond.sortedForms,
    written.rows writtenSecond rfl rfl⟩

theorem Steady.typed (steady : Steady children string)
    (uniform : ∀ form ∈ formsOf children, Uniform form) (several : 2 ≤ (formsOf children).length) :
    ∀ form ∈ formsOf children, typesOf form ≠ [] ∧ ∀ type ∈ typesOf form, type.isSome := by
  intro form member
  obtain ⟨forms, perm, orders⟩ := steady.rows uniform member
  have present {moved : List Node} (reordered : Reordered 2 form moved) :
      ((typesOf moved).head?.join).isSome := by
    obtain ⟨row, _, sorted, _⟩ := orders moved moved reordered reordered
    have keyed := (sort_isSome_iff (moved :: forms)).mp (isSome_iff_exists.mpr ⟨row, sorted⟩)
    rw [perm.length_eq] at several
    rw [← formtype_eq (uniform_reordered reordered (uniform form member))]
    exact keyed several moved mem_cons_self
  constructor
  · intro empty
    have here := present (reordered_refl 2 form)
    rw [empty] at here
    exact absurd here Bool.false_ne_true
  · intro type typeIn
    obtain ⟨moved, reordered, isHead⟩ := exists_typed typeIn
    have here := present reordered
    rw [isHead] at here
    exact here

theorem formRow_perm {moved : List Node} (fields : ∀ field ∈ fieldsOf form, FieldOk field)
    (reordered : Reordered 2 form moved) :
    (formRow moved).Perm (typeOf moved :: (fieldsOf form).flatMap fieldOutput) := by
  have defined : (sort (keyCompare varOf strcmp) (fieldsOf moved)).isSome := by
    apply (sort_isSome_iff (fieldsOf moved)).mpr
    intro _ field member
    obtain ⟨origin, inside, alike⟩ := named_origin reordered member
    exact ((fields origin inside).alike alike).var
  obtain ⟨sorted, isSorted⟩ := isSome_iff_exists.mp defined
  obtain ⟨middle, all, perm⟩ := named_reordered reordered (lit "field")
  have outputs : (fieldsOf form).flatMap fieldOutput = middle.flatMap fieldOutput := by
    rw [flatMap_def, flatMap_def,
      show (fieldsOf form).map fieldOutput = middle.map fieldOutput from
        map_of_forall₂ all fun _ _ _ pair => fieldOutput_alike pair]
  rw [formRow, isSorted, getD_some, outputs]
  exact (((sort_perm isSorted).trans perm.symm).flatMap_right _).cons _

theorem Steady.types (steady : Steady children string)
    (uniform : ∀ form ∈ formsOf children, Uniform form) (member : form ∈ formsOf children) :
    ∀ first ∈ typesOf form, ∀ second ∈ typesOf form, first.getD [] = second.getD [] := by
  intro first firstIn second secondIn
  obtain ⟨moved, reordered, isHead⟩ := exists_typed firstIn
  obtain ⟨movedSecond, reorderedSecond, isHeadSecond⟩ := exists_typed secondIn
  obtain ⟨forms, _, orders⟩ := steady.rows uniform member
  obtain ⟨row, rowSecond, sorted, sortedSecond, same⟩ :=
    orders moved movedSecond reordered reorderedSecond
  have fields := steady.fields uniform form member
  -- both rows hold the words of the other forms, and of the fields of this one
  have words : (formRow moved ++ forms.flatMap formRow).Perm
      (formRow movedSecond ++ forms.flatMap formRow) := by
    have left := (sort_perm sorted).flatMap_right formRow
    have right := (sort_perm sortedSecond).flatMap_right formRow
    rw [flatMap_cons] at left right
    rw [same] at left
    exact left.symm.trans right
  have front := (formRow_perm fields reordered).symm.trans
    (((perm_append_right_iff _).mp words).trans (formRow_perm fields reorderedSecond))
  have single : [typeOf moved].Perm [typeOf movedSecond] :=
    (perm_append_right_iff ((fieldsOf form).flatMap fieldOutput)).mp front
  have equal := singleton_perm_singleton.mp single
  rw [typeOf, typeOf, isHead, isHeadSecond] at equal
  exact equal

theorem typesOf_front {field : Element} (rest : List Element)
    (other : varOf field ≠ some formType) :
    typesOf (arrange form (field :: rest)) = typesOf (arrange form rest) := by
  rw [typesOf, typesOf, fieldsOf, fieldsOf, named, named, elements_arrange, elements_arrange,
    filter_cons]
  split
  · rw [filter_cons, if_neg (by simpa using other)]
  · rfl

theorem fieldsOf_front {first second : Element} (rest : List Element)
    (member : first ∈ fieldsOf form) (memberSecond : second ∈ fieldsOf form) :
    fieldsOf (arrange form (first :: second :: rest)) =
      first :: second :: rest.filter (·.1.name = lit "field") := by
  have isField := (mem_filter.mp member).2
  have isFieldSecond := (mem_filter.mp memberSecond).2
  rw [fieldsOf, named, elements_arrange, filter_cons, if_pos isField, filter_cons,
    if_pos isFieldSecond]

theorem Steady.fields_commute (steady : Steady children string)
    (uniform : ∀ form ∈ formsOf children, Uniform form) (member : form ∈ formsOf children)
    {first second : Element} (firstIn : first ∈ fieldsOf form) (secondIn : second ∈ fieldsOf form)
    (same : varOf first = varOf second) (other : varOf first ≠ some formType) :
    fieldWords first ++ fieldWords second = fieldWords second ++ fieldWords first := by
  by_cases equal : first = second
  · rw [equal]
  obtain ⟨rest, perm⟩ := exists_front_two (mem_filter.mp firstIn).1
    (mem_filter.mp secondIn).1 equal
  have moved : Reordered 2 form (arrange form (first :: second :: rest)) :=
    reordered_arrange perm (alike_row 1 _)
  have movedSecond : Reordered 2 form (arrange form (second :: first :: rest)) :=
    reordered_arrange (perm.trans (.swap _ _ _)) (alike_row 1 _)
  have uniformForm := uniform form member
  have otherSecond : varOf second ≠ some formType := same ▸ other
  have types : typesOf (arrange form (second :: first :: rest)) =
      typesOf (arrange form (first :: second :: rest)) := by
    rw [typesOf_front _ otherSecond, typesOf_front _ other, typesOf_front _ other,
      typesOf_front _ otherSecond]
  have key : jabberXDataGetFormtype (arrange form (second :: first :: rest)) =
      jabberXDataGetFormtype (arrange form (first :: second :: rest)) := by
    rw [formtype_eq (uniform_reordered movedSecond uniformForm),
      formtype_eq (uniform_reordered moved uniformForm), types]
  -- the two orders of the form stand at one place among the others
  obtain ⟨forms, _, orders⟩ := steady.rows uniform member
  obtain ⟨row, rowSecond, sorted, sortedSecond, sameRows⟩ := orders _ _ moved movedSecond
  obtain ⟨lower, upper, rfl, others⟩ := sort_front sorted
  have again : some rowSecond = some (lower ++ arrange form (second :: first :: rest) :: upper) :=
    sortedSecond.symm.trans (others _ key)
  rw [Option.some.inj again, flatMap_append, flatMap_append, append_right_inj,
    flatMap_cons, flatMap_cons, append_left_inj] at sameRows
  -- and so do the two fields among those of the form
  have defined : (sort (keyCompare varOf strcmp)
      (fieldsOf (arrange form (first :: second :: rest)))).isSome := by
    apply (sort_isSome_iff _).mpr
    intro _ field fieldIn
    obtain ⟨origin, inside, alike⟩ := named_origin moved fieldIn
    exact ((steady.fields uniform form member origin inside).alike alike).var
  obtain ⟨fields, sortedFields⟩ := isSome_iff_exists.mp defined
  rw [fieldsOf_front rest firstIn secondIn] at sortedFields
  obtain ⟨before, after, rfl, swapped⟩ := sort_pair strcmp_signed same sortedFields
  rw [formRow, formRow, fieldsOf_front rest firstIn secondIn, fieldsOf_front rest secondIn firstIn,
    sortedFields, swapped, cons_eq_cons] at sameRows
  have outputs := sameRows.2
  simp only [getD_some, flatMap_append, flatMap_cons, append_right_inj,
    fieldOutput, if_neg other, if_neg otherSecond] at outputs
  rw [← append_assoc, ← append_assoc, append_left_inj] at outputs
  exact outputs

theorem Steady.formOk (steady : Steady children string)
    (uniform : ∀ form ∈ formsOf children, Uniform form) (member : form ∈ formsOf children) :
    FormOk form where
  fields := steady.fields uniform form member
  commute := fun _ firstIn _ secondIn same other =>
    steady.fields_commute uniform member firstIn secondIn same other
  types := steady.types uniform member

theorem Steady.forms_commute (steady : Steady children string)
    (uniform : ∀ form ∈ formsOf children, Uniform form) {first second : List Node}
    (firstIn : first ∈ formsOf children) (secondIn : second ∈ formsOf children)
    (same : typeOf first = typeOf second) :
    formWords first ++ formWords second = formWords second ++ formWords first := by
  by_cases equal : first = second
  · rw [equal]
  have several : 2 ≤ (formsOf children).length := by
    obtain ⟨rest, perm⟩ := exists_front_two firstIn secondIn equal
    rw [perm.length_eq]
    exact Nat.le_add_left 2 rest.length
  have typed := steady.typed uniform several
  have key : jabberXDataGetFormtype first = jabberXDataGetFormtype second := by
    rw [formtype_typed (uniform first firstIn) (typed first firstIn),
      formtype_typed (uniform second secondIn) (typed second secondIn), same]
  obtain ⟨_, _, _, query, querySecond, moved, movedSecond, isInfo, isInfoSecond⟩ :=
    forms_front firstIn secondIn equal
  obtain ⟨_, _, _, written⟩ := steady.written uniform moved
  obtain ⟨_, _, _, writtenSecond⟩ := steady.written uniform movedSecond
  rw [isInfo] at written
  rw [isInfoSecond] at writtenSecond
  have rows := written.rows writtenSecond rfl rfl
  obtain ⟨lower, upper, rfl, swapped⟩ := sort_pair strcmp_signed key written.sortedForms
  have again := writtenSecond.sortedForms.symm.trans swapped
  rw [Option.some.inj again] at rows
  simp only [flatMap_append, flatMap_cons, append_right_inj] at rows
  rw [← append_assoc, ← append_assoc, append_left_inj,
    formRow_words (steady.formOk uniform firstIn),
    formRow_words (steady.formOk uniform secondIn)] at rows
  exact rows

theorem identityToken_name {first second : JabberIdentity} (key : identityKey first = identityKey second)
    (same : identityToken first = identityToken second) :
    first.name.getD [] = second.name.getD [] := by
  rw [identityKey, identityKey, Prod.mk.injEq, Prod.mk.injEq] at key
  obtain ⟨category, type, lang⟩ := key
  rw [identityToken, identityToken, category, type, lang, append_right_inj] at same
  exact escape_injective same

theorem Steady.identities (steady : Steady children string)
    (uniform : ∀ form ∈ formsOf children, Uniform form) {first second : JabberIdentity}
    (firstIn : first ∈ identitiesOf children) (secondIn : second ∈ identitiesOf children)
    (key : identityKey first = identityKey second) :
    first.name.getD [] = second.name.getD [] := by
  by_cases equal : first = second
  · rw [equal]
  obtain ⟨_, _, _, query, querySecond, moved, movedSecond, isInfo, isInfoSecond⟩ :=
    identities_front firstIn secondIn equal
  obtain ⟨_, _, _, written⟩ := steady.written uniform moved
  obtain ⟨_, _, _, writtenSecond⟩ := steady.written uniform movedSecond
  rw [isInfo] at written
  rw [isInfoSecond] at writtenSecond
  have tokens := written.identityTokens writtenSecond rfl rfl
  -- the identities are sorted by what they are compared by
  have byKey : keyCompare some jabberIdentityCompare =
      keyCompare (some ∘ identityKey) compareIdentityKeys := rfl
  have sameKey : (some ∘ identityKey) first = (some ∘ identityKey) second := congrArg some key
  have sorted := written.sortedIdentities
  have sortedSecond := writtenSecond.sortedIdentities
  rw [byKey] at sorted sortedSecond
  obtain ⟨lower, upper, rfl, swapped⟩ :=
    sort_pair compareIdentityKeys_signed sameKey sorted
  rw [Option.some.inj (sortedSecond.symm.trans swapped)] at tokens
  simp only [map_append, map_cons, append_right_inj, cons_eq_cons] at tokens
  exact identityToken_name key tokens.1

theorem Steady.settled (steady : Steady children string)
    (uniform : ∀ form ∈ formsOf children, Uniform form) : Settled children where
  identities := by
    intro first firstIn second secondIn category type lang
    apply steady.identities uniform firstIn secondIn
    rw [identityKey, identityKey, category, type, lang]
  forms := fun _ member => steady.formOk uniform member
  typed := steady.typed uniform
  commute := fun _ firstIn _ secondIn same => steady.forms_commute uniform firstIn secondIn same

end steady

theorem independent_steady {query : Tag} {children : List Node} (name : query.name = lit "query")
    (xmlns : query.xmlns = some nsDiscoInfo) (independent : OrderIndependent query children) :
    ∃ string, Steady children string := by
  have parsed (children : List Node) :
      jabberCapsParseClientInfo query children = some (infoOf children) := by
    rw [jabberCapsParseClientInfo, if_pos ⟨name, xmlns⟩, parseChildren_infoOf]
  have hashed {children : List Node} {hash : Option Text}
      (calculated : jabberCapsCalculateHash (jabberCapsParseClientInfo query children) (some some) =
        some hash) : ∃ string, verificationString (infoOf children) = some string ∧
          hash = some string := by
    rw [parsed] at calculated
    obtain ⟨string, written, same⟩ := map_eq_some_iff.mp calculated
    exact ⟨string, written, same.symm⟩
  obtain ⟨_, _, calculated⟩ := independent (some some) children (reordered_refl 3 children)
  obtain ⟨string, written, rfl⟩ := hashed calculated
  refine ⟨string, ?_⟩
  intro reordered moved
  obtain ⟨hash, calculatedMoved, again⟩ := independent (some some) reordered moved
  obtain ⟨other, isWritten, rfl⟩ := hashed again
  obtain ⟨third, writtenMoved, same⟩ := hashed calculatedMoved
  rw [written] at isWritten
  cases isWritten
  cases same
  exact writtenMoved

/-- Of the queries whose forms have one namespace, those with one hash for every order are
the settled ones. -/
theorem hash_orderIndependent_iff (nsPrefix : Option Text) (namespaceMap : Option NamespaceMap)
    (children : List Node) :
    (∀ form ∈ formsOf children, Uniform form) ∧
        OrderIndependent
          { name := lit "query", nsPrefix, xmlns := some nsDiscoInfo, namespaceMap } children ↔
      (∀ form ∈ formsOf children, Uniform form) ∧ Settled children := by
  constructor
  · intro both
    obtain ⟨uniform, independent⟩ := both
    obtain ⟨string, steady⟩ := independent_steady rfl rfl independent
    exact ⟨uniform, steady.settled uniform⟩
  · intro both
    obtain ⟨uniform, settled⟩ := both
    exact ⟨uniform, settled_independent _ uniform settled⟩

def tagOf (name : Text) (xmlns : Option Text) : Tag :=
  { name, nsPrefix := none, xmlns, namespaceMap := none }

def attribOf (name data : Text) : Node :=
  .attrib { name, nsPrefix := none, xmlns := none, data }

def untypedForms : List Node :=
  [.tag (tagOf (lit "x") (some (lit "jabber:x:data"))) [],
    .tag (tagOf (lit "x") (some (lit "jabber:x:data"))) []]

def clientNamed (name : Text) : Node :=
  .tag (tagOf (lit "identity") none)
    [attribOf (lit "category") (lit "client"), attribOf (lit "type") (lit "pc"),
      attribOf (lit "name") name]

/-- Two forms without a type are compared by NULL, and two names of one client are written
in the order in which they come. -/
theorem untypedForms_hash :
    jabberCapsCalculateHash
        (jabberCapsParseClientInfo (tagOf (lit "query") (some nsDiscoInfo)) untypedForms)
        (some some) = none ∧
      jabberCapsCalculateHash
          (jabberCapsParseClientInfo (tagOf (lit "query") (some nsDiscoInfo))
            [clientNamed (lit "a"), clientNamed (lit "b")]) (some some) ≠
        jabberCapsCalculateHash
          (jabberCapsParseClientInfo (tagOf (lit "query") (some nsDiscoInfo))
            [clientNamed (lit "b"), clientNamed (lit "a")]) (some some) := by
  decide +kernel

end Purple.Jabber.CapsHash
