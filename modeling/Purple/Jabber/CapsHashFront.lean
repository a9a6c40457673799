/-
Orders of a query that put elements in front of the others.
-/

import Purple.Jabber.CapsHashSettled

namespace Purple.Jabber.CapsHash

open List Sax Xml SortedList

def arrange (children : List Node) (moved : List Element) : List Node :=
  others children ++ moved.map nodeOf

variable {children form : List Node}

theorem elements_arrange (children : List Node) (moved : List Element) :
    elements (arrange children moved) = moved := by
  have plain : (others children).filterMap element? = [] := by
    rw [filterMap_eq_nil_iff]
    intro node member
    exact Option.isNone_iff_eq_none.mp (mem_filter.mp member).2
  have tags : (moved.map nodeOf).filterMap element? = moved := by
    rw [filterMap_map]
    exact filterMap_some
  rw [elements, arrange, filterMap_append, plain, tags, nil_append]

theorem others_arrange (children : List Node) (moved : List Element) :
    others (arrange children moved) = others children := by
  have plain : (others children).filter (fun node => (element? node).isNone) = others children := by
    rw [others, List.filter_filter]
    simp only [Bool.and_self]
  have tags : (moved.map nodeOf).filter (fun node => (element? node).isNone) = [] := by
    rw [filter_eq_nil_iff]
    intro node member
    obtain ⟨element, _, rfl⟩ := List.mem_map.mp member
    exact Bool.false_ne_true
  change (others children ++ moved.map nodeOf).filter _ = _
  rw [filter_append, plain, tags, append_nil]

theorem reordered_arrange {depth : Nat} {row moved : List Element}
    (perm : (elements children).Perm row) (alike : List.Forall₂ (Alike depth) row moved) :
    Reordered (depth + 1) children (arrange children moved) := by
  refine ⟨(others_arrange children moved).symm, ?_⟩
  rw [elements_arrange]
  exact perm_comp_forall₂ perm alike

theorem alike_refl (depth : Nat) (element : Element) : Alike depth element element :=
  ⟨rfl, reordered_refl depth element.2⟩

theorem alike_row (depth : Nat) (row : List Element) : List.Forall₂ (Alike depth) row row :=
  forall₂_same.mpr fun element _ => alike_refl depth element

theorem exists_front {Item : Type} {item : Item} {list : List Item} (member : item ∈ list) :
    ∃ rest, list.Perm (item :: rest) := by
  obtain ⟨before, after, rfl⟩ := append_of_mem member
  exact ⟨before ++ after, perm_middle⟩

theorem exists_front_two {Item : Type} {first second : Item} {list : List Item}
    (member : first ∈ list) (memberSecond : second ∈ list) (different : first ≠ second) :
    ∃ rest, list.Perm (first :: second :: rest) := by
  obtain ⟨behind, perm⟩ := exists_front member
  have inside := perm.mem_iff.mp memberSecond
  rw [mem_cons] at inside
  obtain ⟨rest, permBehind⟩ := exists_front (inside.resolve_left different.symm)
  exact ⟨rest, perm.trans (permBehind.cons first)⟩

theorem exists_typed {type : Option Text} (member : type ∈ typesOf form) :
    ∃ moved, Reordered 2 form moved ∧ (typesOf moved).head? = some type := by
  obtain ⟨field, fieldIn, typeIn⟩ := mem_flatMap.mp member
  obtain ⟨fieldIn, typed⟩ := mem_filter.mp fieldIn
  obtain ⟨elementIn, isField⟩ := mem_filter.mp fieldIn
  obtain ⟨rest, perm⟩ := exists_front elementIn
  have head {moved : Element} (alike : Alike 1 field moved) {types : List (Option Text)}
      (shown : typeData moved = type :: types) :
      (typesOf (arrange form (moved :: rest))).head? = some type := by
    have kept : moved.1.name = lit "field" := alike.1 ▸ of_decide_eq_true isField
    have keptVar : varOf moved = some formType := varOf_alike alike ▸ of_decide_eq_true typed
    rw [typesOf, fieldsOf, named, elements_arrange, filter_cons,
      if_pos (decide_eq_true kept), filter_cons, if_pos (decide_eq_true keptVar),
      flatMap_cons, shown]
    rfl
  rw [typeData] at typeIn
  by_cases empty : dataOf field = []
  · rw [if_pos empty, mem_singleton] at typeIn
    refine ⟨arrange form (field :: rest), reordered_arrange perm (alike_row 1 _), ?_⟩
    apply head (alike_refl 1 field)
    rw [typeData, if_pos empty, typeIn]
  · rw [if_neg empty] at typeIn
    obtain ⟨value, valueIn, rfl⟩ := List.mem_map.mp typeIn
    obtain ⟨valueElement, isValue⟩ := mem_filter.mp valueIn
    obtain ⟨values, permValues⟩ := exists_front valueElement
    have alike : Alike 1 field (field.1, arrange field.2 (value :: values)) :=
      ⟨rfl, reordered_arrange permValues (alike_row 0 _)⟩
    refine ⟨arrange form ((field.1, arrange field.2 (value :: values)) :: rest),
      reordered_arrange perm (.cons alike (alike_row 1 rest)), ?_⟩
    have data : dataOf (field.1, arrange field.2 (value :: values)) =
        getData value.2 :: (values.filter (·.1.name = lit "value")).map fun value => getData value.2 := by
      rw [dataOf, named, elements_arrange, filter_cons, if_pos isValue, map_cons]
    apply head alike
    rw [typeData, if_neg (by rw [data]; exact cons_ne_nil _ _), data]

theorem identityOf_form {tag : Tag} (form : isForm tag) (child : List Node) :
    identityOf (tag, child) = none := by
  rw [identityOf, if_neg]
  rw [form.1]
  decide

theorem featureOf_form {tag : Tag} (form : isForm tag) (child : List Node) :
    featureOf (tag, child) = none := by
  rw [featureOf, if_neg]
  rw [form.1]
  decide

theorem featureOf_identity {child : Element} {id : JabberIdentity}
    (present : identityOf child = some id) : featureOf child = none := by
  rw [identityOf] at present
  split at present
  · rename_i isIdentity
    rw [featureOf, if_neg]
    rw [isIdentity]
    decide
  · cases present

theorem formOf_identity {child : Element} {id : JabberIdentity}
    (present : identityOf child = some id) : formOf child = none := by
  rw [identityOf] at present
  split at present
  · rename_i isIdentity
    rw [formOf, if_neg]
    rw [isForm, isIdentity]
    exact fun both => absurd both.1 (by decide)
  · cases present

theorem infoOf_arrange (children : List Node) (moved : List Element) :
    infoOf (arrange children moved) =
      { identities := moved.filterMap identityOf
        features := (moved.filterMap featureOf).reverse
        forms := moved.filterMap formOf } := by
  rw [infoOf, identitiesOf, featuresOf, formsOf, elements_arrange]

theorem form_element (member : form ∈ formsOf children) :
    ∃ tag, isForm tag ∧ (tag, form) ∈ elements children := by
  obtain ⟨element, inside, present⟩ := mem_filterMap.mp member
  rw [formOf] at present
  split at present
  · rename_i isForm_
    cases present
    exact ⟨element.1, isForm_, inside⟩
  · cases present

theorem form_front (member : form ∈ formsOf children) :
    ∃ identities features forms, (formsOf children).Perm (form :: forms) ∧
      ∀ moved, Reordered 2 form moved →
        ∃ query, Reordered 3 children query ∧
          infoOf query = { identities, features, forms := moved :: forms } := by
  obtain ⟨tag, form_, inside⟩ := form_element member
  obtain ⟨rest, perm⟩ := exists_front inside
  refine ⟨rest.filterMap identityOf, (rest.filterMap featureOf).reverse, rest.filterMap formOf,
    ?_, ?_⟩
  · have forms := perm.filterMap formOf
    rw [filterMap_cons, show formOf (tag, form) = some form from if_pos form_] at forms
    exact forms
  · intro moved reordered
    refine ⟨arrange children ((tag, moved) :: rest),
      reordered_arrange perm (.cons ⟨rfl, reordered⟩ (alike_row 2 rest)), ?_⟩
    rw [infoOf_arrange, filterMap_cons, filterMap_cons, filterMap_cons,
      identityOf_form form_, featureOf_form form_,
      show formOf (tag, moved) = some moved from if_pos form_]

theorem forms_front {first second : List Node} (member : first ∈ formsOf children)
    (memberSecond : second ∈ formsOf children) (different : first ≠ second) :
    ∃ identities features forms query querySecond, Reordered 3 children query ∧
      Reordered 3 children querySecond ∧
      infoOf query = { identities, features, forms := first :: second :: forms } ∧
      infoOf querySecond = { identities, features, forms := second :: first :: forms } := by
  obtain ⟨tag, form, inside⟩ := form_element member
  obtain ⟨tagSecond, formSecond, insideSecond⟩ := form_element memberSecond
  obtain ⟨rest, perm⟩ := exists_front_two inside insideSecond fun same => different (congrArg Prod.snd same)
  refine ⟨rest.filterMap identityOf, (rest.filterMap featureOf).reverse, rest.filterMap formOf,
    arrange children ((tag, first) :: (tagSecond, second) :: rest),
    arrange children ((tagSecond, second) :: (tag, first) :: rest),
    reordered_arrange perm (alike_row 2 _),
    reordered_arrange (perm.trans (.swap _ _ _)) (alike_row 2 _), ?_, ?_⟩
  all_goals
    simp only [infoOf_arrange, filterMap_cons,
      identityOf_form form, featureOf_form form, identityOf_form formSecond,
      featureOf_form formSecond,
      show formOf (tag, first) = some first from if_pos form,
      show formOf (tagSecond, second) = some second from if_pos formSecond]

theorem identities_front {first second : JabberIdentity} (member : first ∈ identitiesOf children)
    (memberSecond : second ∈ identitiesOf children) (different : first ≠ second) :
    ∃ identities features forms query querySecond, Reordered 3 children query ∧
      Reordered 3 children querySecond ∧
      infoOf query = { identities := first :: second :: identities, features, forms } ∧
      infoOf querySecond = { identities := second :: first :: identities, features, forms } := by
  obtain ⟨element, inside, present⟩ := mem_filterMap.mp member
  obtain ⟨elementSecond, insideSecond, presentSecond⟩ := mem_filterMap.mp memberSecond
  have differentElements : element ≠ elementSecond := by
    intro same
    rw [same, presentSecond] at present
    exact different (Option.some.inj present).symm
  obtain ⟨rest, perm⟩ := exists_front_two inside insideSecond differentElements
  refine ⟨rest.filterMap identityOf, (rest.filterMap featureOf).reverse, rest.filterMap formOf,
    arrange children (element :: elementSecond :: rest),
    arrange children (elementSecond :: element :: rest),
    reordered_arrange perm (alike_row 2 _),
    reordered_arrange (perm.trans (.swap _ _ _)) (alike_row 2 _), ?_, ?_⟩
  all_goals
    simp only [infoOf_arrange, filterMap_cons, present, presentSecond,
      featureOf_identity present, featureOf_identity presentSecond, formOf_identity present,
      formOf_identity presentSecond]

end Purple.Jabber.CapsHash
