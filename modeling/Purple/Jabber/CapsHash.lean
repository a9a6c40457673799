/-
The verification string of entity capabilities, `jabber_caps_parse_client_info` and
`jabber_caps_calculate_hash` of caps.c, as a row of tokens.

A NULL string that reaches `strcmp` or `g_str_equal` makes the function `none`.  The
message digest is a parameter, which is absent where the cipher has no such name.
`strcmp` compares the bytes of UTF-8, whose order is that of the characters.  A token is
escaped text with a `<` behind it, so the string tells the tokens.
-/

import Purple.CString
import Purple.SortedByKey
import Purple.XmlParse

namespace Purple.Jabber.CapsHash

open Sax Xml SortedList

def lit (text : String) : Text := text.toList

/-- The sign that `strcmp` gives. -/
def strcmp : Text → Text → Int
  | [], [] => 0
  | [], _ :: _ => -1
  | _ :: _, [] => 1
  | first :: left, second :: right =>
    if first.toNat < second.toNat then -1
    else if second.toNat < first.toNat then 1
    else strcmp left right

structure JabberIdentity where
  category : Text
  type : Text
  name : Option Text
  lang : Option Text
deriving DecidableEq, Repr

/-- A form is the list of the children of its node. -/
structure JabberCapsClientInfo where
  identities : List JabberIdentity
  features : List Text
  forms : List (List Node)

structure JabberDataFormField where
  var : Option Text
  values : List (Option Text)
deriving DecidableEq, Repr

def nsDiscoInfo : Text := lit "http://jabber.org/protocol/disco#info"

def parseIdentity (child : List Node) : Option JabberIdentity :=
  match getAttrib child (lit "category"), getAttrib child (lit "type") with
  | some category, some type =>
    some { category, type, name := getAttrib child (lit "name"),
           lang := getAttrib child (lit "lang") }
  | _, _ => none

def parseChild (info : JabberCapsClientInfo) (tag : Tag) (child : List Node) :
    JabberCapsClientInfo :=
  if tag.name = lit "identity" then
    match parseIdentity child with
    | some id => { info with identities := info.identities ++ [id] }
    | none => info
  else if tag.name = lit "feature" then
    match getAttrib child (lit "var") with
    | some var => { info with features := var :: info.features }
    | none => info
  else if tag.name = lit "x" ∧ tag.xmlns = some (lit "jabber:x:data") then
    { info with forms := info.forms ++ [child] }
  else info

def parseChildren (info : JabberCapsClientInfo) : List Node → JabberCapsClientInfo
  | [] => info
  | .tag tag child :: rest => parseChildren (parseChild info tag child) rest
  | .attrib _ :: rest => parseChildren info rest
  | .data _ :: rest => parseChildren info rest

def jabberCapsParseClientInfo (query : Tag) (children : List Node) :
    Option JabberCapsClientInfo :=
  if query.name = lit "query" ∧ query.xmlns = some nsDiscoInfo then
    some (parseChildren { identities := [], features := [], forms := [] } children)
  else none

/-- A language that is absent stands before every other. -/
def compareLang : Option Text → Option Text → Int
  | none, none => 0
  | some _, none => 1
  | none, some _ => -1
  | some first, some second => strcmp first second

/-- `jabber_identity_compare` -/
def jabberIdentityCompare (first second : JabberIdentity) : Int :=
  let catCmp := strcmp first.category second.category
  if catCmp = 0 then
    let typCmp := strcmp first.type second.type
    if typCmp = 0 then compareLang first.lang second.lang else typCmp
  else catCmp

def formType : Text := lit "FORM_TYPE"

/-- The first field of that name decides, also where it has no value. -/
def jabberXDataGetFormtype (form : List Node) : Option Text :=
  ((childrenNamed form (lit "field")).find? fun field =>
    getAttrib field (lit "var") = some formType).bind fun field =>
      (childrenNamed field (lit "value")).head?.bind getData

/-- `jabber_xdata_compare` -/
def jabberXdataCompare : List Node → List Node → Option Int :=
  keyCompare jabberXDataGetFormtype strcmp

/-- `jabber_caps_xdata_field_compare` -/
def jabberCapsXdataFieldCompare : JabberDataFormField → JabberDataFormField → Option Int :=
  keyCompare JabberDataFormField.var strcmp

def compareStrings : Option Text → Option Text → Option Int := keyCompare id strcmp

def readField (field : List Node) : Option JabberDataFormField :=
  (sort compareStrings ((childrenNamed field (lit "value")).map getData)).map fun values =>
    { var := getAttrib field (lit "var"), values }

def jabberCapsXdataGetFields (form : List Node) : Option (List JabberDataFormField) :=
  ((childrenNamed form (lit "field")).mapM readField).bind (sort jabberCapsXdataFieldCompare)

def appendEscapedString (str : Option Text) : Text := gMarkupEscapeText (str.getD []) ++ ['<']

def identityText (id : JabberIdentity) : Text :=
  gMarkupEscapeText id.category ++ ['/'] ++ gMarkupEscapeText id.type ++ ['/'] ++
    gMarkupEscapeText (id.lang.getD []) ++ ['/'] ++ gMarkupEscapeText (id.name.getD []) ++ ['<']

def fieldText (field : JabberDataFormField) : Option Text :=
  field.var.map fun var =>
    if var = formType then []
    else appendEscapedString (some var) ++ field.values.flatMap appendEscapedString

def formText (form : List Node) : Option Text := do
  let fields ← jabberCapsXdataGetFields form
  let texts ← fields.mapM fieldText
  some (appendEscapedString (jabberXDataGetFormtype form) ++ texts.flatten)

def verificationString (info : JabberCapsClientInfo) : Option Text := do
  let identities ← sort (keyCompare some jabberIdentityCompare) info.identities
  let features ← sort compareStrings (info.features.map some)
  let forms ← sort jabberXdataCompare info.forms
  let texts ← forms.mapM formText
  some (identities.flatMap identityText ++ features.flatMap appendEscapedString ++ texts.flatten)

def jabberCapsCalculateHash (info : Option JabberCapsClientInfo)
    (digest : Option (Text → Option Text)) : Option (Option Text) :=
  match info, digest with
  | some info, some digest => (verificationString info).map digest
  | _, _ => some none

open List Option

theorem strcmp_eq_zero (first second : Text) : strcmp first second = 0 ↔ first = second := by
  induction first generalizing second with
  | nil => cases second <;> simp [strcmp]
  | cons left first ih =>
    cases second with
    | nil => simp [strcmp]
    | cons right second =>
      rw [strcmp, cons_eq_cons, ← ih]
      by_cases below : left.toNat < right.toNat
      · rw [if_pos below]
        refine ⟨fun wrong => absurd wrong (by decide), fun same => ?_⟩
        rw [same.1] at below
        exact absurd below (Nat.lt_irrefl _)
      · rw [if_neg below]
        by_cases above : right.toNat < left.toNat
        · rw [if_pos above]
          refine ⟨fun wrong => absurd wrong (by decide), fun same => ?_⟩
          rw [same.1] at above
          exact absurd above (Nat.lt_irrefl _)
        · rw [if_neg above]
          have same : left = right := Char.toNat_inj.mp (by omega)
          exact ⟨fun rest => ⟨same, rest⟩, fun both => both.2⟩

theorem strcmp_signed : Signed strcmp where
  swap := by
    intro first second
    induction first generalizing second with
    | nil => cases second <;> simp [strcmp]
    | cons left first ih =>
      cases second with
      | nil => simp [strcmp]
      | cons right second =>
        rw [strcmp, strcmp]
        by_cases below : left.toNat < right.toNat
        · rw [if_pos below, if_neg (by omega), if_pos below]
          decide
        · by_cases above : right.toNat < left.toNat
          · rw [if_neg below, if_pos above, if_pos above]
            decide
          · rw [if_neg below, if_neg above, if_neg above, if_neg below]
            exact ih second
  trans := by
    intro first second third
    induction first generalizing second third with
    | nil => cases third <;> simp [strcmp]
    | cons left first ih =>
      cases second with
      | nil => simp [strcmp]
      | cons middle second =>
        cases third with
        | nil => simp [strcmp]
        | cons right third =>
          intro low high
          rw [strcmp] at low high ⊢
          split at low
          · split at high
            · rw [if_pos (by omega)]
              decide
            · split at high
              · exact absurd high (by decide)
              · rw [if_pos (by omega)]
                decide
          · split at low
            · exact absurd low (by decide)
            · split at high
              · rw [if_pos (by omega)]
                decide
              · split at high
                · exact absurd high (by decide)
                · rw [if_neg (by omega), if_neg (by omega)]
                  exact ih second third low high

theorem compareLang_signed : Signed compareLang where
  swap := by
    intro first second
    cases first with
    | none => cases second <;> simp [compareLang]
    | some first =>
      cases second with
      | none => simp [compareLang]
      | some second => exact strcmp_signed.swap first second
  trans := by
    intro first second third
    cases first with
    | none => cases third <;> simp [compareLang]
    | some first =>
      cases second with
      | none => simp [compareLang]
      | some second =>
        cases third with
        | none => simp [compareLang]
        | some third => exact strcmp_signed.trans first second third

theorem compareLang_eq_zero (first second : Option Text) :
    compareLang first second = 0 ↔ first = second := by
  cases first with
  | none => cases second <;> simp [compareLang]
  | some first =>
    cases second with
    | none => simp [compareLang]
    | some second =>
      rw [some_inj]
      exact strcmp_eq_zero first second

def identityKey (id : JabberIdentity) : Text × Text × Option Text := (id.category, id.type, id.lang)

def compareIdentityKeys (first second : Text × Text × Option Text) : Int :=
  if strcmp first.1 second.1 = 0 then
    if strcmp first.2.1 second.2.1 = 0 then compareLang first.2.2 second.2.2
    else strcmp first.2.1 second.2.1
  else strcmp first.1 second.1

theorem compareIdentityKeys_signed : Signed compareIdentityKeys := by
  have types := strcmp_signed.on fun key : Text × Text × Option Text => key.2.1
  have langs := compareLang_signed.on fun key : Text × Text × Option Text => key.2.2
  exact (strcmp_signed.on Prod.fst).lex (types.lex langs)

theorem jabberIdentityCompare_signed : Signed jabberIdentityCompare :=
  compareIdentityKeys_signed.on identityKey

theorem jabberIdentityCompare_eq_zero (first second : JabberIdentity) :
    jabberIdentityCompare first second = 0 ↔ first.category = second.category ∧
      first.type = second.type ∧ first.lang = second.lang := by
  rw [← strcmp_eq_zero, ← strcmp_eq_zero, ← compareLang_eq_zero, jabberIdentityCompare]
  dsimp only
  split
  · split
    · simp only [*, true_and]
    · simp only [*, true_and, false_and]
  · simp only [*, false_and]

def referenceBody (c : Char) : Text := (escapeChar c).tail.dropLast

theorem escapeChar_table : ∀ n : Fin 160, escapeChar (Char.ofNat n) = [Char.ofNat n] ∨
    (escapeChar (Char.ofNat n) = '&' :: referenceBody (Char.ofNat n) ++ [';'] ∧
      ';' ∉ referenceBody (Char.ofNat n) ∧ '<' ∉ referenceBody (Char.ofNat n) ∧
      (purpleMarkupUnescapeEntity (escapeChar (Char.ofNat n))).map Prod.fst =
        some (some (Char.ofNat n))) := by
  decide +kernel

theorem escapeChar_large {c : Char} (large : 160 ≤ c.toNat) : escapeChar c = [c] := by
  have differs {other : Char} (small : other.toNat < 160) : c ≠ other := by
    intro same
    rw [same] at large
    omega
  rw [escapeChar, if_neg (differs (by decide)), if_neg (differs (by decide)),
    if_neg (differs (by decide)), if_neg (differs (by decide)), if_neg (differs (by decide)), if_neg]
  simp only [isEscapedControl, Bool.or_eq_true, Bool.and_eq_true, decide_eq_true_eq]
  omega

theorem escapeChar_shape (c : Char) :
    escapeChar c = [c] ∨
      (escapeChar c = '&' :: referenceBody c ++ [';'] ∧ ';' ∉ referenceBody c ∧
        '<' ∉ referenceBody c ∧
        (purpleMarkupUnescapeEntity (escapeChar c)).map Prod.fst = some (some c)) := by
  by_cases small : c.toNat < 160
  · have here := escapeChar_table ⟨c.toNat, small⟩
    simp only [Char.ofNat_toNat] at here
    exact here
  · exact .inl (escapeChar_large (Nat.not_lt.mp small))

theorem escapeChar_solid (c : Char) : '<' ∉ escapeChar c := by
  obtain same | ⟨same, _, solid, _⟩ := escapeChar_shape c
  · intro member
    rw [same, mem_singleton] at member
    rw [← member] at same
    exact absurd same (by decide)
  · rw [same]
    intro member
    rw [cons_append, mem_cons, mem_append, mem_singleton] at member
    obtain wrong | inside | wrong := member
    · exact absurd wrong (by decide)
    · exact solid inside
    · exact absurd wrong (by decide)

theorem escapeChar_prefix_free {c d : Char} {behind other : Text}
    (same : escapeChar c ++ behind = escapeChar d ++ other) : c = d ∧ behind = other := by
  have literal {c : Char} (self : escapeChar c = [c]) : c ≠ '&' := by
    intro ampersand
    rw [ampersand] at self
    exact absurd self (by decide)
  obtain left | ⟨left, solidLeft, _, backLeft⟩ := escapeChar_shape c
  · obtain right | ⟨right, _⟩ := escapeChar_shape d
    · rw [left, right] at same
      exact List.cons.inj same
    · rw [left, right] at same
      exact absurd (List.cons.inj same).1 (literal left)
  · obtain right | ⟨right, solidRight, _, backRight⟩ := escapeChar_shape d
    · rw [left, right] at same
      exact absurd (List.cons.inj same).1.symm (literal right)
    · have bodies := same
      rw [left, right, append_assoc, append_assoc] at bodies
      obtain ⟨body, rest⟩ := CString.stop_unique solidLeft solidRight (List.cons.inj bodies).2
      rw [left, body, ← right, backRight] at backLeft
      exact ⟨(Option.some.inj (Option.some.inj backLeft)).symm, rest⟩

theorem escape_injective {first second : Text}
    (same : gMarkupEscapeText first = gMarkupEscapeText second) : first = second := by
  have filled (c : Char) (rest : Text) : escapeChar c ++ gMarkupEscapeText rest ≠ [] := by
    obtain self | ⟨self, _⟩ := escapeChar_shape c
    · rw [self]
      exact cons_ne_nil _ _
    · rw [self]
      exact cons_ne_nil _ _
  induction first generalizing second with
  | nil =>
    cases second with
    | nil => rfl
    | cons d second => exact absurd same.symm (filled d second)
  | cons c first ih =>
    cases second with
    | nil => exact absurd same (filled c first)
    | cons d second =>
      obtain ⟨equal, rest⟩ := escapeChar_prefix_free same
      rw [equal, ih rest]

theorem escape_solid (text : Text) : '<' ∉ gMarkupEscapeText text := by
  intro member
  obtain ⟨c, _, inside⟩ := mem_flatMap.mp member
  exact escapeChar_solid c inside

def textOf (tokens : List Text) : Text := tokens.flatMap (· ++ ['<'])

theorem textOf_injective {first second : List Text} (solidFirst : ∀ token ∈ first, '<' ∉ token)
    (solidSecond : ∀ token ∈ second, '<' ∉ token) (same : textOf first = textOf second) :
    first = second := by
  induction first generalizing second with
  | nil =>
    cases second with
    | nil => rfl
    | cons token second =>
      have empty : token ++ ['<'] ++ textOf second = [] := same.symm
      simp at empty
  | cons token first ih =>
    cases second with
    | nil =>
      have empty : token ++ ['<'] ++ textOf first = [] := same
      simp at empty
    | cons other second =>
      have split : token ++ '<' :: textOf first = other ++ '<' :: textOf second := by
        have whole : token ++ ['<'] ++ textOf first = other ++ ['<'] ++ textOf second := same
        rw [append_assoc, append_assoc] at whole
        exact whole
      obtain ⟨equal, rest⟩ := CString.stop_unique (solidFirst token mem_cons_self)
        (solidSecond other mem_cons_self) split
      rw [equal, ih (fun token member => solidFirst token (mem_cons_of_mem _ member))
        (fun token member => solidSecond token (mem_cons_of_mem _ member)) rest]

theorem textOf_append (first second : List Text) :
    textOf (first ++ second) = textOf first ++ textOf second := flatMap_append

def identityToken (id : JabberIdentity) : Text :=
  gMarkupEscapeText id.category ++ ['/'] ++ gMarkupEscapeText id.type ++ ['/'] ++
    gMarkupEscapeText (id.lang.getD []) ++ ['/'] ++ gMarkupEscapeText (id.name.getD [])

theorem identityToken_solid (id : JabberIdentity) : '<' ∉ identityToken id := by
  have slash : '<' ∉ ['/'] := by decide
  simp only [identityToken, mem_append, not_or]
  exact ⟨⟨⟨⟨⟨⟨escape_solid _, slash⟩, escape_solid _⟩, slash⟩, escape_solid _⟩, slash⟩,
    escape_solid _⟩

def escapeAll (words : List Text) : List Text := words.map gMarkupEscapeText

theorem escapeAll_append (first second : List Text) :
    escapeAll (first ++ second) = escapeAll first ++ escapeAll second := map_append

theorem escapeAll_injective {first second : List Text} (same : escapeAll first = escapeAll second) :
    first = second :=
  map_injective_iff.mpr (fun _ _ equal => escape_injective equal) same

theorem escapeAll_solid (words : List Text) : ∀ token ∈ escapeAll words, '<' ∉ token := by
  intro token member
  obtain ⟨word, _, rfl⟩ := List.mem_map.mp member
  exact escape_solid word

/-- The words of a field behind its name, and the name; nothing for a form's type. -/
def JabberDataFormField.words (field : JabberDataFormField) : List Text :=
  if field.var = some formType then [] else field.var.getD [] :: field.values.map (·.getD [])

theorem fieldText_words {field : JabberDataFormField} (named : field.var.isSome) :
    fieldText field = some (textOf (escapeAll field.words)) := by
  obtain ⟨var, present⟩ := isSome_iff_exists.mp named
  rw [fieldText, present, map_some, JabberDataFormField.words, present]
  by_cases typed : var = formType
  · rw [if_pos typed, if_pos (congrArg some typed)]
    rfl
  · rw [if_neg typed, if_neg fun same => typed (Option.some.inj same)]
    have values : field.values.flatMap appendEscapedString =
        textOf (escapeAll (field.values.map (·.getD []))) := by
      rw [textOf, escapeAll, List.map_map, flatMap_map]
      rfl
    rw [values]
    rfl

theorem mapM_of_some {Element Image : Type} {step : Element → Option Image}
    {image : Element → Image} {list : List Element}
    (all : ∀ element ∈ list, step element = some (image element)) :
    list.mapM step = some (list.map image) := by
  induction list with
  | nil => rfl
  | cons head rest ih =>
    rw [mapM_cons, all head mem_cons_self,
      ih fun element member => all element (mem_cons_of_mem _ member)]
    rfl

theorem mem_of_mapM {Element Image : Type} {step : Element → Option Image}
    {list : List Element} {images : List Image} (done : list.mapM step = some images) :
    ∀ element ∈ list, ∃ image ∈ images, step element = some image := by
  induction list generalizing images with
  | nil => exact fun _ member => absurd member not_mem_nil
  | cons head rest ih =>
    rw [mapM_cons] at done
    obtain ⟨image, first, done⟩ := bind_eq_some_iff.mp done
    obtain ⟨others, later, done⟩ := bind_eq_some_iff.mp done
    cases done
    intro element member
    rw [mem_cons] at member
    obtain rfl | member := member
    · exact ⟨image, mem_cons_self, first⟩
    · obtain ⟨found, inside, same⟩ := ih later element member
      exact ⟨found, mem_cons_of_mem _ inside, same⟩

theorem textOf_flatMap {Element : Type} (words : Element → List Text) (list : List Element) :
    (list.map fun element => textOf (words element)).flatten = textOf (list.flatMap words) := by
  induction list with
  | nil => rfl
  | cons head rest ih =>
    rw [map_cons, flatten_cons, ih, flatMap_cons, textOf_append]

end Purple.Jabber.CapsHash
