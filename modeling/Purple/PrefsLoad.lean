/-
The handlers that read prefs.xml, and the stack of open prefs.

The parser reports the elements of a document with their attributes in order.
-/

import Purple.Prefs

namespace Purple.Prefs

open List

inductive Element where
  | mk (name : Text) (attributes : List (Text × Text)) (content : List Element)

inductive Event where
  | startElement (name : Text) (attributes : List (Text × Text))
  | endElement (name : Text)

mutual

def Element.events : Element → List Event
  | .mk name attributes content =>
    .startElement name attributes :: (contentEvents content ++ [.endElement name])

def contentEvents : List Element → List Event
  | [] => []
  | element :: rest => element.events ++ contentEvents rest

end

def prefElement : Text := ['p', 'r', 'e', 'f']

def itemElement : Text := ['i', 't', 'e', 'm']

def nameAttribute : Text := ['n', 'a', 'm', 'e']

def typeAttribute : Text := ['t', 'y', 'p', 'e']

def valueAttribute : Text := ['v', 'a', 'l', 'u', 'e']

/-- The types of the format; a pref without one has the type none. -/
def typeNamed (value : Text) : Option PurplePrefType :=
  if value = ['b', 'o', 'o', 'l'] then some .boolean
  else if value = ['i', 'n', 't'] then some .int
  else if value = ['s', 't', 'r', 'i', 'n', 'g'] then some .string
  else if value = ['s', 't', 'r', 'i', 'n', 'g', 'l', 'i', 's', 't'] then some .stringList
  else if value = ['p', 'a', 't', 'h'] then some .path
  else if value = ['p', 'a', 't', 'h', 'l', 'i', 's', 't'] then some .pathList
  else none

structure Parsed where
  prefName : Option Text
  prefType : PurplePrefType
  prefValue : Option Text
deriving DecidableEq, Repr

def parseAttribute (parsed : Parsed) (reported : Text × Text) : Option Parsed :=
  if reported.1 = nameAttribute then some { parsed with prefName := some reported.2 }
  else if reported.1 = typeAttribute then
    (typeNamed reported.2).map fun prefType => { parsed with prefType }
  else if reported.1 = valueAttribute then some { parsed with prefValue := some reported.2 }
  else some parsed

def parseAttributes (attributes : List (Text × Text)) : Option Parsed :=
  match attributes.foldlM parseAttribute
      { prefName := none, prefType := .none, prefValue := none } with
  | none => none
  | some parsed =>
    if (parsed.prefType = .boolean ∨ parsed.prefType = .int) ∧ parsed.prefValue = none then none
    else some parsed

/-- What the start handler does to the preferences: an item is appended to a
list, a pref is added or set. -/
inductive Change where
  | item (list : Text) (value : Option Text)
  | pref (name : Text) (type : PurplePrefType) (value : Option Text)
deriving DecidableEq, Repr

/-- The loop over the stack for a pref: the innermost name comes first. -/
def prefPath (prefsStack : List Text) (prefName : Text) : Text :=
  '/' :: prefsStack.foldl (fun full name => name ++ '/' :: full) prefName

def itemPath (prefsStack : List Text) : Text :=
  prefsStack.foldl (fun full name => '/' :: (name ++ full)) []

def prefsStartElementHandler (prefsStack : List Text) (elementName : Text)
    (attributes : List (Text × Text)) : List Text × Option Change :=
  if elementName ≠ prefElement ∧ elementName ≠ itemElement then (prefsStack, none)
  else
    match parseAttributes attributes with
    | none => (prefsStack, none)
    | some parsed =>
      if elementName = itemElement then
        (prefsStack, some (.item (itemPath prefsStack) parsed.prefValue))
      else
        match parsed.prefName with
        | none => (prefsStack, none)
        | some prefName =>
          if prefName = ['/'] then (prefsStack, none)
          else
            (prefName :: prefsStack,
              some (.pref (prefPath prefsStack prefName) parsed.prefType parsed.prefValue))

def prefsEndElementHandler (prefsStack : List Text) (elementName : Text) : List Text :=
  if elementName = prefElement then prefsStack.tail else prefsStack

structure Loading where
  prefsStack : List Text
  changes : List Change

def Loading.handle (loading : Loading) : Event → Loading
  | .startElement name attributes =>
    { prefsStack := (prefsStartElementHandler loading.prefsStack name attributes).1
      changes := loading.changes ++
        (prefsStartElementHandler loading.prefsStack name attributes).2.toList }
  | .endElement name =>
    { loading with prefsStack := prefsEndElementHandler loading.prefsStack name }

def load (events : List Event) : Loading :=
  events.foldl Loading.handle { prefsStack := [], changes := [] }

def givenName (attributes : List (Text × Text)) : Option Text :=
  attributes.foldl (fun found reported =>
    if reported.1 = nameAttribute then some reported.2 else found) none

/-- An element named `/` stands for the root. -/
def isOpenPref (opened : Text × List (Text × Text)) : Bool :=
  opened.1 = prefElement ∧ givenName opened.2 ≠ some ['/']

def openNames (opened : List (Text × List (Text × Text))) : List (Option Text) :=
  (opened.filter isOpenPref).map fun pref => givenName pref.2

/-- The change of an item or of a valid pref, under the path of the prefs around it. -/
def placedChange (opened : List (Text × List (Text × Text))) (name : Text)
    (attributes : List (Text × Text)) : Option Change :=
  let enclosing := ((openNames opened).filterMap id).reverse
  match parseAttributes attributes, givenName attributes with
  | none, _ => none
  | some parsed, given =>
    if name = itemElement then some (.item (fullPath enclosing) parsed.prefValue)
    else if name = prefElement then
      (given.filter (· ≠ ['/'])).map fun prefName =>
        .pref (fullPath (enclosing ++ [prefName])) parsed.prefType parsed.prefValue
    else none

/-- The open elements, the innermost first, and the changes so far. -/
structure Reading where
  opened : List (Text × List (Text × Text))
  changes : List Change

def Reading.handle (reading : Reading) : Event → Reading
  | .startElement name attributes =>
    { opened := (name, attributes) :: reading.opened
      changes := reading.changes ++ (placedChange reading.opened name attributes).toList }
  | .endElement _ => { reading with opened := reading.opened.tail }

def read (events : List Event) : Reading :=
  events.foldl Reading.handle { opened := [], changes := [] }

/-- The stack holds the names of the open prefs, and every change so far was
made under the path of the prefs around it. -/
structure Places (loading : Loading) (reading : Reading) : Prop where
  stack : loading.prefsStack.map some = openNames reading.opened
  changes : loading.changes = reading.changes

def isValidPref (attributes : List (Text × Text)) : Bool :=
  (parseAttributes attributes).isSome && (givenName attributes).any (· ≠ ['/'])

mutual

def Element.AllValid (inside : Bool) : Element → Prop
  | .mk name attributes content =>
    if name = prefElement then
      if isValidPref attributes then contentAllValid true content
      else givenName attributes = some ['/'] ∧ inside = false ∧ contentAllValid false content
    else contentAllValid inside content

def contentAllValid (inside : Bool) : List Element → Prop
  | [] => True
  | element :: rest => element.AllValid inside ∧ contentAllValid inside rest

end

theorem prefPath_eq (prefsStack : List Text) (prefName : Text) :
    prefPath prefsStack prefName = fullPath (prefsStack.reverse ++ [prefName]) := by
  unfold prefPath fullPath
  induction prefsStack generalizing prefName with
  | nil => simp
  | cons inner rest ih =>
    rw [foldl_cons, ih]
    simp

theorem itemPath_eq (prefsStack : List Text) :
    itemPath prefsStack = fullPath prefsStack.reverse := by
  have general : ∀ full : Text,
      prefsStack.foldl (fun full name => '/' :: (name ++ full)) full =
        fullPath prefsStack.reverse ++ full := by
    unfold fullPath
    induction prefsStack with
    | nil => intro full; rfl
    | cons inner rest ih =>
      intro full
      rw [foldl_cons, ih]
      simp
  unfold itemPath
  rw [general, append_nil]

theorem parsed_name {attributes : List (Text × Text)} {parsed : Parsed}
    (accepted : parseAttributes attributes = some parsed) :
    parsed.prefName = givenName attributes := by
  have general : ∀ (reported : List (Text × Text)) (before after : Parsed),
      reported.foldlM parseAttribute before = some after →
        after.prefName = reported.foldl (fun found next =>
          if next.1 = nameAttribute then some next.2 else found) before.prefName := by
    intro reported
    induction reported with
    | nil =>
      intro before after parses
      cases parses
      rfl
    | cons first rest ih =>
      intro before after parses
      rw [foldlM_cons] at parses
      obtain ⟨middle, taken, parses⟩ := Option.bind_eq_some_iff.mp parses
      rw [foldl_cons, ih middle after parses]
      congr 1
      unfold parseAttribute at taken
      split at taken
      · rename_i named
        cases taken
        rw [if_pos named]
      · rename_i other
        rw [if_neg other]
        split at taken
        · obtain ⟨prefType, -, rfl⟩ := Option.map_eq_some_iff.mp taken
          rfl
        · split at taken <;> (cases taken; rfl)
  unfold parseAttributes at accepted
  split at accepted
  · cases accepted
  · rename_i found parses
    split at accepted
    · cases accepted
    · cases accepted
      exact general attributes _ _ parses

variable {loading : Loading} {reading : Reading}

theorem enclosing_eq (places : Places loading reading) :
    ((openNames reading.opened).filterMap id).reverse = loading.prefsStack.reverse := by
  rw [← places.stack, filterMap_map]
  simp

theorem change_placed (places : Places loading reading) (name : Text)
    (attributes : List (Text × Text)) :
    (prefsStartElementHandler loading.prefsStack name attributes).2 =
      placedChange reading.opened name attributes := by
  unfold prefsStartElementHandler placedChange
  rw [enclosing_eq places]
  cases parses : parseAttributes attributes with
  | none => simp
  | some parsed =>
    rw [← parsed_name parses]
    by_cases item : name = itemElement
    · simp [item, itemPath_eq]
    · by_cases pref : name = prefElement
      · have noItem : prefElement ≠ itemElement := by decide
        cases named : parsed.prefName with
        | none => simp [pref, named, noItem]
        | some prefName =>
          by_cases slash : prefName = ['/']
          · simp [pref, named, noItem, slash, Option.filter]
          · simp [pref, named, noItem, slash, prefPath_eq, Option.filter]
      · simp [item, pref]

theorem pushes_iff (prefsStack : List Text) (attributes : List (Text × Text)) :
    (prefsStartElementHandler prefsStack prefElement attributes).1 =
      if isValidPref attributes then (givenName attributes).toList ++ prefsStack
      else prefsStack := by
  have noItem : prefElement ≠ itemElement := by decide
  unfold prefsStartElementHandler isValidPref
  cases parses : parseAttributes attributes with
  | none => simp
  | some parsed =>
    rw [← parsed_name parses]
    cases named : parsed.prefName with
    | none => simp [named, noItem]
    | some prefName => by_cases slash : prefName = ['/'] <;> simp [named, noItem, slash]

theorem keeps_stack (prefsStack : List Text) {name : Text} (other : name ≠ prefElement)
    (attributes : List (Text × Text)) :
    (prefsStartElementHandler prefsStack name attributes).1 = prefsStack := by
  unfold prefsStartElementHandler
  by_cases item : name = itemElement
  · cases parseAttributes attributes <;> simp [item]
  · simp [item, other]

theorem places_start (places : Places loading reading) (name : Text)
    (attributes : List (Text × Text)) :
    Places (loading.handle (.startElement name attributes))
        (reading.handle (.startElement name attributes)) ↔
      ((prefsStartElementHandler loading.prefsStack name attributes).1).map some =
        openNames ((name, attributes) :: reading.opened) := by
  constructor
  · exact fun behind => behind.stack
  · intro stack
    refine ⟨stack, ?_⟩
    simp only [Loading.handle, Reading.handle, places.changes, change_placed places]

/-! ### Every event -/

def Throughout (loading : Loading) (reading : Reading) : List Event → Prop
  | [] => True
  | event :: rest =>
    Places (loading.handle event) (reading.handle event) ∧
      Throughout (loading.handle event) (reading.handle event) rest

theorem throughout_append (first second : List Event) :
    Throughout loading reading (first ++ second) ↔
      Throughout loading reading first ∧
        Throughout (first.foldl Loading.handle loading) (first.foldl Reading.handle reading)
          second := by
  induction first generalizing loading reading with
  | nil => simp [Throughout]
  | cons event rest ih =>
    rw [cons_append, Throughout, Throughout, ih, foldl_cons, foldl_cons,
      and_assoc]

theorem places_last (places : Places loading reading) {events : List Event}
    (throughout : Throughout loading reading events) :
    Places (events.foldl Loading.handle loading) (events.foldl Reading.handle reading) := by
  induction events generalizing loading reading with
  | nil => exact places
  | cons event rest ih => exact ih throughout.1 throughout.2

theorem throughout_iff (places : Places loading reading) (events : List Event) :
    Throughout loading reading events ↔ ∀ done, done <+: events →
      Places (done.foldl Loading.handle loading) (done.foldl Reading.handle reading) := by
  constructor
  · intro throughout done initial
    obtain ⟨later, rfl⟩ := initial
    exact places_last places ((throughout_append done later).mp throughout).1
  · intro every
    induction events generalizing loading reading with
    | nil => trivial
    | cons event rest ih =>
      have behind := every [event] ⟨rest, rfl⟩
      refine ⟨behind, ih behind fun done initial => ?_⟩
      exact every (event :: done) (cons_prefix_cons.mpr ⟨rfl, initial⟩)

theorem openNames_pref {attributes : List (Text × Text)} (nested : givenName attributes ≠ some ['/'])
    (opened : List (Text × List (Text × Text))) :
    openNames ((prefElement, attributes) :: opened) = givenName attributes :: openNames opened := by
  simp [openNames, isOpenPref, nested]

theorem openNames_root {attributes : List (Text × Text)} (slash : givenName attributes = some ['/'])
    (opened : List (Text × List (Text × Text))) :
    openNames ((prefElement, attributes) :: opened) = openNames opened := by
  simp [openNames, isOpenPref, slash]

theorem openNames_other {name : Text} (other : name ≠ prefElement)
    (attributes : List (Text × Text)) (opened : List (Text × List (Text × Text))) :
    openNames ((name, attributes) :: opened) = openNames opened := by
  simp [openNames, isOpenPref, other]

theorem places_length (places : Places loading reading) :
    loading.prefsStack.length = (openNames reading.opened).length := by
  rw [← places.stack, length_map]

def Restored (loading : Loading) (reading : Reading) (events : List Event) : Prop :=
  (events.foldl Loading.handle loading).prefsStack = loading.prefsStack ∧
    (events.foldl Reading.handle reading).opened = reading.opened

/-- Elements that stand in `inside`, which says whether a valid pref is open. -/
def Balanced (valid : Prop) (inside : Bool) (events : List Event) : Prop :=
  ∀ loading reading, Places loading reading → inside = !loading.prefsStack.isEmpty →
    (Throughout loading reading events ↔ valid) ∧ (valid → Restored loading reading events)

theorem places_end (places : Places loading reading) (name : Text) :
    Places (loading.handle (.endElement name)) (reading.handle (.endElement name)) ↔
      (prefsEndElementHandler loading.prefsStack name).map some =
        openNames reading.opened.tail :=
  ⟨fun behind => behind.stack, fun stack => ⟨stack, places.changes⟩⟩

section Tags

variable {valid : Prop} {inner : Bool} {events : List Event} {name : Text}
  {attributes : List (Text × Text)} {stack : List Text}

/-- An element is right when its start tag, its content and its end tag are;
`stack` is the stack inside. -/
theorem throughout_element (balanced : Balanced valid inner events)
    (places : Places loading reading)
    (pushed : (prefsStartElementHandler loading.prefsStack name attributes).1 = stack)
    (standing : inner = !stack.isEmpty) :
    Throughout loading reading (.startElement name attributes :: (events ++ [.endElement name])) ↔
      stack.map some = openNames ((name, attributes) :: reading.opened) ∧ valid ∧
        (prefsEndElementHandler stack name).map some = openNames reading.opened := by
  rw [Throughout, places_start places, pushed]
  refine and_congr_right fun opened => ?_
  have inside := (places_start places name attributes).mpr (by rw [pushed]; exact opened)
  have entered : (loading.handle (.startElement name attributes)).prefsStack = stack := pushed
  obtain ⟨content, restored⟩ := balanced _ _ inside (by rw [entered]; exact standing)
  rw [throughout_append, content]
  refine and_congr_right fun isValid => ?_
  obtain ⟨sameStack, sameOpened⟩ := restored isValid
  have behind := places_last inside (content.mpr isValid)
  rw [Throughout, Throughout, and_true, places_end behind, sameStack, sameOpened, entered]
  rfl

theorem restored_element (balanced : Balanced valid inner events)
    (places : Places loading reading)
    (pushed : (prefsStartElementHandler loading.prefsStack name attributes).1 = stack)
    (standing : inner = !stack.isEmpty) (isValid : valid)
    (opened : stack.map some = openNames ((name, attributes) :: reading.opened))
    (popped : prefsEndElementHandler stack name = loading.prefsStack) :
    Restored loading reading
      (.startElement name attributes :: (events ++ [.endElement name])) := by
  have inside := (places_start places name attributes).mpr (by rw [pushed]; exact opened)
  have entered : (loading.handle (.startElement name attributes)).prefsStack = stack := pushed
  obtain ⟨sameStack, sameOpened⟩ :=
    (balanced _ _ inside (by rw [entered]; exact standing)).2 isValid
  rw [Restored, foldl_cons, foldl_cons, foldl_append, foldl_append]
  refine ⟨?_, ?_⟩
  · change prefsEndElementHandler (events.foldl Loading.handle _).prefsStack name = _
    rw [sameStack, entered, popped]
  · change (events.foldl Reading.handle _).opened.tail = _
    rw [sameOpened]
    rfl

end Tags

theorem givenName_of_valid {attributes : List (Text × Text)} (isValid : isValidPref attributes) :
    ∃ prefName, givenName attributes = some prefName ∧ prefName ≠ ['/'] := by
  unfold isValidPref at isValid
  cases given : givenName attributes with
  | none => simp [given] at isValid
  | some prefName => exact ⟨prefName, rfl, by simpa [given] using (Bool.and_eq_true_iff.mp isValid).2⟩

mutual

theorem element_balanced (element : Element) (inside : Bool) :
    Balanced (element.AllValid inside) inside element.events := by
  obtain ⟨name, attributes, content⟩ := element
  intro loading reading places standing
  rw [Element.events, Element.AllValid]
  by_cases pref : name = prefElement
  · subst pref
    rw [if_pos rfl]
    by_cases isValid : isValidPref attributes
    · rw [if_pos isValid]
      obtain ⟨prefName, given, different⟩ := givenName_of_valid isValid
      have pushed : (prefsStartElementHandler loading.prefsStack prefElement attributes).1 =
          prefName :: loading.prefsStack := by
        rw [pushes_iff, if_pos isValid, given]
        rfl
      have opened : (prefName :: loading.prefsStack).map some =
          openNames ((prefElement, attributes) :: reading.opened) := by
        rw [openNames_pref (by rw [given]; simpa using different), given, map_cons,
          places.stack]
      have balanced := content_balanced content true
      refine ⟨?_, fun all => restored_element balanced places pushed rfl all opened rfl⟩
      rw [throughout_element balanced places pushed rfl]
      exact ⟨fun right => right.2.1, fun all => ⟨opened, all, places.stack⟩⟩
    · rw [if_neg isValid]
      have pushed : (prefsStartElementHandler loading.prefsStack prefElement attributes).1 =
          loading.prefsStack := by
        rw [pushes_iff, if_neg isValid]
      have balanced := content_balanced content inside
      by_cases slash : givenName attributes = some ['/']
      · have opened : loading.prefsStack.map some =
            openNames ((prefElement, attributes) :: reading.opened) := by
          rw [openNames_root slash, places.stack]
        -- The end tag pops a name that a start tag did not push.
        have empty_iff : (prefsEndElementHandler loading.prefsStack prefElement).map some =
            openNames reading.opened ↔ inside = false := by
          rw [← places.stack, standing]
          cases loading.prefsStack with
          | nil => exact ⟨fun _ => rfl, fun _ => rfl⟩
          | cons inner rest =>
            constructor
            · intro same
              have lengths := congrArg List.length same
              simp [prefsEndElementHandler] at lengths
            · intro impossible
              cases impossible
        refine ⟨?_, ?_⟩
        · rw [throughout_element balanced places pushed standing]
          constructor
          · rintro ⟨-, all, popped⟩
            have outside := empty_iff.mp popped
            rw [outside] at all
            exact ⟨slash, outside, all⟩
          · rintro ⟨-, outside, all⟩
            refine ⟨opened, ?_, empty_iff.mpr outside⟩
            rw [outside]
            exact all
        · rintro ⟨-, outside, all⟩
          have bottom : loading.prefsStack = [] := by
            rw [outside] at standing
            simpa using standing
          refine restored_element balanced places pushed standing ?_ opened ?_
          · rw [outside]
            exact all
          · rw [bottom]
            rfl
      · have different : ¬ loading.prefsStack.map some =
            openNames ((prefElement, attributes) :: reading.opened) := by
          intro same
          have lengths := congrArg List.length same
          rw [openNames_pref slash, length_map, length_cons, places_length places] at lengths
          omega
        refine ⟨?_, fun all => absurd all.1 slash⟩
        rw [throughout_element balanced places pushed standing]
        exact ⟨fun right => absurd right.1 different, fun all => absurd all.1 slash⟩
  · rw [if_neg pref]
    have pushed : (prefsStartElementHandler loading.prefsStack name attributes).1 =
        loading.prefsStack := keeps_stack _ pref attributes
    have opened : loading.prefsStack.map some =
        openNames ((name, attributes) :: reading.opened) := by
      rw [openNames_other pref, places.stack]
    have popped : prefsEndElementHandler loading.prefsStack name = loading.prefsStack := if_neg pref
    have balanced := content_balanced content inside
    refine ⟨?_, fun all => restored_element balanced places pushed standing all opened popped⟩
    rw [throughout_element balanced places pushed standing, popped]
    exact ⟨fun right => right.2.1, fun all => ⟨opened, all, places.stack⟩⟩

theorem content_balanced (content : List Element) (inside : Bool) :
    Balanced (contentAllValid inside content) inside (contentEvents content) := by
  match content with
  | [] => exact fun _ _ _ _ => ⟨Iff.rfl, fun _ => ⟨rfl, rfl⟩⟩
  | element :: rest =>
    intro loading reading places standing
    obtain ⟨first, restored⟩ := element_balanced element inside loading reading places standing
    have behind : element.AllValid inside →
        (Throughout (element.events.foldl Loading.handle loading)
            (element.events.foldl Reading.handle reading) (contentEvents rest) ↔
          contentAllValid inside rest) ∧
        (contentAllValid inside rest →
          Restored (element.events.foldl Loading.handle loading)
            (element.events.foldl Reading.handle reading) (contentEvents rest)) := by
      intro isValid
      refine content_balanced rest inside _ _ (places_last places (first.mpr isValid)) ?_
      rw [(restored isValid).1]
      exact standing
    refine ⟨?_, ?_⟩
    · rw [contentEvents, throughout_append, contentAllValid, first]
      exact and_congr_right fun isValid => (behind isValid).1
    · rintro ⟨isValid, all⟩
      obtain ⟨sameStack, sameOpened⟩ := (behind isValid).2 all
      rw [Restored, contentEvents, foldl_append, foldl_append, sameStack, sameOpened]
      exact restored isValid

end

/-- The prefs are stored under their own paths throughout a document just when
every pref element in it is valid, or stands for the root outside of them. -/
theorem load_places_iff (document : Element) :
    (∀ done, done <+: document.events → Places (load done) (read done)) ↔
      document.AllValid false := by
  have start : Places { prefsStack := [], changes := [] } { opened := [], changes := [] } :=
    ⟨rfl, rfl⟩
  rw [← (element_balanced document false _ _ start rfl).1]
  exact (throughout_iff start document.events).symm

def unknownType : Element :=
  .mk prefElement [(nameAttribute, ['a']), (typeAttribute, ['x'])]
    [.mk prefElement [(nameAttribute, ['b'])] []]

/-- The pref `/a/b` is stored as `/b`. -/
theorem unknownType_misplaced :
    ¬ ∀ document : Element, ∀ done, done <+: document.events → Places (load done) (read done) := by
  intro always
  have places := always unknownType unknownType.events (prefix_refl _)
  exact absurd places.changes (by decide)

end Purple.Prefs
