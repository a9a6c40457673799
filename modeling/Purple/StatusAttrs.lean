/-
What a call leaves in the attribute table of a status.

Both loops are followed for one attribute id at a time: the first loop leaves
the datum that was supplied last, the second the default that was declared
last.  Neither changes the type of a value.
-/

import Purple.Status

namespace Purple.Status

open Option

variable {utf8Valid : CText → Bool}

/-- The type of a value; a value that the status code does not read is its own. -/
def PurpleValue.kind : PurpleValue → PurpleValue
  | .string _ => .string none
  | .int _ => .int 0
  | .boolean _ => .boolean 0
  | .other type data => .other type data

/-- The datum as a value of the type of `value`. -/
def PurpleValue.supply (value : PurpleValue) (data : Gpointer) : PurpleValue :=
  match value with
  | .string _ => .string data.string
  | .int _ => .int data.int
  | .boolean _ => .boolean data.int
  | .other type data => .other type data

variable (utf8Valid) in
def PurpleValue.accepts (value : PurpleValue) (data : Gpointer) : Bool :=
  match value with
  | .string _ => storable utf8Valid data.string
  | _ => true

def supplied : List (Option CText × Gpointer) → CText → Option Gpointer
  | [], _ => none
  | (id, data) :: rest, key => (supplied rest key).or (if id = some key then some data else none)

def defaultOf : List (PurpleStatusAttr utf8Valid) → CText → Option PurpleValue
  | [], _ => none
  | attr :: rest, key => (defaultOf rest key).or (if attr.id = key then some attr.value else none)

variable {values : AttrValues} {key : CText} {walk : Walk} {value : PurpleValue}
  {rest : List (Option CText × Gpointer)} {attr : PurpleStatusAttr utf8Valid}

theorem supply_of_kind {left right : PurpleValue} (same : left.kind = right.kind)
    (data : Gpointer) : left.supply data = right.supply data := by
  cases left <;> cases right <;> simp_all [PurpleValue.kind, PurpleValue.supply]

theorem accepts_of_kind {left right : PurpleValue} (same : left.kind = right.kind)
    (data : Gpointer) : left.accepts utf8Valid data = right.accepts utf8Valid data := by
  cases left <;> cases right <;> simp_all [PurpleValue.kind, PurpleValue.accepts]

theorem setAttrString_other {id : CText} (different : key ≠ id) (value : Option CText) :
    setAttrString utf8Valid values id value key = values key := by
  unfold setAttrString
  cases values id with
  | none => rfl
  | some current =>
    cases current with
    | string data =>
      by_cases stored : storable utf8Valid value = true
      · simp only [stored, if_true]
        exact AttrValues.insert_other different _
      · simp only [stored]
        rfl
    | _ => rfl

theorem setAttrInt_other {id : CText} (different : key ≠ id) (value : Int) :
    setAttrInt values id value key = values key := by
  unfold setAttrInt
  cases values id with
  | none => rfl
  | some current =>
    cases current with
    | int data => exact AttrValues.insert_other different _
    | _ => rfl

theorem setAttrBoolean_other {id : CText} (different : key ≠ id) (value : Gboolean) :
    setAttrBoolean values id value key = values key := by
  unfold setAttrBoolean
  cases values id with
  | none => rfl
  | some current =>
    cases current with
    | boolean data => exact AttrValues.insert_other different _
    | _ => rfl

theorem setSuppliedAttr_unsupported {id : CText} (absent : walk.values id = none)
    (data : Gpointer) : setSuppliedAttr utf8Valid walk (some id) data = walk := by
  simp [setSuppliedAttr, absent]

theorem setSuppliedAttr_other {id : CText} (different : key ≠ id) (data : Gpointer) :
    (setSuppliedAttr utf8Valid walk (some id) data).values key = walk.values key := by
  cases found : walk.values id with
  | none => rw [setSuppliedAttr_unsupported found]
  | some value =>
    cases value <;> simp only [setSuppliedAttr, found]
    case string current =>
      split
      · rfl
      · exact setAttrString_other different _
    case int current =>
      split
      · rfl
      · exact setAttrInt_other different _
    case boolean current =>
      split
      · rfl
      · exact setAttrBoolean_other different _

theorem setSuppliedAttr_self {walk : Walk} {id : CText} {value : PurpleValue}
    (held : walk.values id = some value) (data : Gpointer) :
    ∃ next, (setSuppliedAttr utf8Valid walk (some id) data).values id = some next ∧
      next.kind = value.kind ∧
      (value.accepts utf8Valid data = true → next = value.supply data) := by
  cases value with
  | string current =>
    by_cases same : data.string = current
    · exact ⟨.string current, by simp [setSuppliedAttr, held, same], rfl,
        fun _ => by simp [PurpleValue.supply, same]⟩
    · by_cases stored : storable utf8Valid data.string = true
      · exact ⟨.string data.string, by simp [setSuppliedAttr, held, same, setAttrString, stored],
          rfl, fun _ => rfl⟩
      · exact ⟨.string current, by simp [setSuppliedAttr, held, same, setAttrString, stored],
          rfl, fun accepted => absurd accepted stored⟩
  | int current =>
    by_cases same : data.int = current
    · exact ⟨.int current, by simp [setSuppliedAttr, held, same], rfl,
        fun _ => by simp [PurpleValue.supply, same]⟩
    · exact ⟨.int data.int, by simp [setSuppliedAttr, held, same, setAttrInt], rfl,
        fun _ => rfl⟩
  | boolean current =>
    by_cases same : data.int = current
    · exact ⟨.boolean current, by simp [setSuppliedAttr, held, same], rfl,
        fun _ => by simp [PurpleValue.supply, same]⟩
    · exact ⟨.boolean data.int, by simp [setSuppliedAttr, held, same, setAttrBoolean], rfl,
        fun _ => rfl⟩
  | other type datum =>
    exact ⟨.other type datum, by simp [setSuppliedAttr, held], rfl, fun _ => rfl⟩

theorem setSuppliedAttr_specified {id : CText} (held : walk.values id = some value)
    (data : Gpointer) :
    (setSuppliedAttr utf8Valid walk (some id) data).specified = id :: walk.specified := by
  cases value <;> simp only [setSuppliedAttr, held]
  all_goals split <;> rfl

theorem setSuppliedAttr_changed (walk : Walk) (id : Option CText) (data : Gpointer)
    (changed : walk.changed = true) :
    (setSuppliedAttr utf8Valid walk id data).changed = true := by
  cases id with
  | none => exact changed
  | some name =>
    cases found : walk.values name with
    | none => rw [setSuppliedAttr_unsupported found]; exact changed
    | some value =>
      cases value <;> simp only [setSuppliedAttr, found]
      case other => exact changed
      all_goals
        split
        · exact changed
        · rfl

structure SuppliedAt (utf8Valid : CText → Bool) (pairs : List (Option CText × Gpointer))
    (before after : Walk) (key : CText) : Prop where
  absent : before.values key = none → after.values key = none
  specified : (before.values key).isSome →
    (key ∈ after.specified ↔ key ∈ before.specified ∨ (supplied pairs key).isSome)
  held : ∀ value, before.values key = some value →
    ∃ next, after.values key = some next ∧ next.kind = value.kind ∧
      (supplied pairs key = none → next = value) ∧
      ∀ data, supplied pairs key = some data → value.accepts utf8Valid data = true →
        next = value.supply data

private theorem suppliedAt_skip {after : Walk} {id : Option CText} {data : Gpointer}
    (done : SuppliedAt utf8Valid rest (setSuppliedAttr utf8Valid walk id data) after key)
    (kept : (setSuppliedAttr utf8Valid walk id data).values key = walk.values key)
    (listed : key ∈ (setSuppliedAttr utf8Valid walk id data).specified ↔ key ∈ walk.specified)
    (different : id ≠ some key) : SuppliedAt utf8Valid ((id, data) :: rest) walk after key := by
  have same : supplied ((id, data) :: rest) key = supplied rest key := by
    simp [supplied, different]
  refine ⟨?_, ?_, ?_⟩
  · rw [← kept]
    exact done.absent
  · intro present
    rw [← kept] at present
    rw [done.specified present, listed, same]
  · intro value held
    rw [← kept] at held
    rw [same]
    exact done.held value held

private theorem suppliedAt_self {after : Walk} {data : Gpointer}
    (done : SuppliedAt utf8Valid rest (setSuppliedAttr utf8Valid walk (some key) data) after key) :
    SuppliedAt utf8Valid ((some key, data) :: rest) walk after key := by
  have last : supplied ((some key, data) :: rest) key = (supplied rest key).or (some data) := by
    simp [supplied]
  refine ⟨?_, ?_, ?_⟩
  · intro absent
    rw [setSuppliedAttr_unsupported absent] at done
    exact done.absent absent
  · intro present
    obtain ⟨value, held⟩ := isSome_iff_exists.mp present
    obtain ⟨middle, reached, -, -⟩ := @setSuppliedAttr_self utf8Valid _ _ _ held data
    have listed := done.specified (by rw [reached]; rfl)
    rw [setSuppliedAttr_specified held] at listed
    rw [last, listed]
    simp
  · intro value held
    obtain ⟨middle, reached, middleKind, middleSet⟩ :=
      @setSuppliedAttr_self utf8Valid _ _ _ held data
    obtain ⟨next, found, kind, unchanged, set⟩ := done.held middle reached
    refine ⟨next, found, kind.trans middleKind, ?_, ?_⟩
    · intro none
      rw [last] at none
      simp at none
    · intro datum some accepted
      rw [last] at some
      cases later : supplied rest key with
      | none =>
        rw [later] at some
        cases some
        rw [unchanged later]
        exact middleSet accepted
      | some winner =>
        rw [later] at some
        cases some
        rw [← supply_of_kind middleKind]
        exact set datum later (by rw [accepts_of_kind middleKind]; exact accepted)

theorem setSupplied_attrsOf (pairs : List (Option CText × Gpointer)) (walk : Walk) :
    ∃ after, setSupplied utf8Valid walk (attrsOf pairs) = some after ∧
      (walk.changed = true → after.changed = true) ∧
      ∀ key, SuppliedAt utf8Valid pairs walk after key := by
  induction pairs generalizing walk with
  | nil =>
    refine ⟨walk, rfl, id, fun key => ⟨id, fun _ => by simp [supplied], ?_⟩⟩
    intro value held
    refine ⟨value, held, rfl, fun _ => rfl, ?_⟩
    intro data impossible
    cases impossible
  | cons pair rest ih =>
    obtain ⟨id, data⟩ := pair
    obtain ⟨after, ran, grows, done⟩ := ih (setSuppliedAttr utf8Valid walk id data)
    refine ⟨after, ran, fun changed => grows (setSuppliedAttr_changed walk id data changed), ?_⟩
    intro key
    cases id with
    | none => exact suppliedAt_skip (done key) rfl Iff.rfl (by simp)
    | some name =>
      by_cases same : name = key
      · subst same
        exact suppliedAt_self (done name)
      · refine suppliedAt_skip (done key)
          (setSuppliedAttr_other (fun equal => same equal.symm) data) ?_ (by simpa using same)
        cases found : walk.values name with
        | none => rw [setSuppliedAttr_unsupported found]
        | some value =>
          rw [setSuppliedAttr_specified found, List.mem_cons, or_iff_right]
          exact fun equal => same equal.symm

theorem resetAttr_specified (walk : Walk) (attr : PurpleStatusAttr utf8Valid) :
    (resetAttr walk attr).specified = walk.specified := by
  unfold resetAttr
  split
  · rfl
  · cases attr.value <;> simp only <;> split <;> rfl

theorem resetAttr_changed (walk : Walk) (attr : PurpleStatusAttr utf8Valid)
    (changed : walk.changed = true) : (resetAttr walk attr).changed = true := by
  unfold resetAttr
  split
  · exact changed
  · cases attr.value <;> simp only
    all_goals
      split
      · exact changed
      · rfl

theorem resetAttr_skip (skipped : key ≠ attr.id ∨ key ∈ walk.specified) :
    (resetAttr walk attr).values key = walk.values key := by
  by_cases listed : attr.id ∈ walk.specified
  · rw [resetAttr, if_pos (List.contains_iff_mem.mpr listed)]
  · have different : key ≠ attr.id := by
      rcases skipped with different | member
      · exact different
      · exact fun same => listed (same ▸ member)
    rw [resetAttr, if_neg (mt List.contains_iff_mem.mp listed)]
    cases attr.value <;> simp only
    case string default =>
      split
      · rfl
      · exact setAttrString_other different _
    case int default =>
      split
      · rfl
      · exact setAttrInt_other different _
    case boolean default =>
      split
      · rfl
      · exact setAttrBoolean_other different _

theorem resetAttr_self (unlisted : attr.id ∉ walk.specified)
    (held : walk.values attr.id = some value) :
    ∃ next, (resetAttr walk attr).values attr.id = some next ∧ next.kind = value.kind ∧
      (value.kind = attr.value.kind → next = attr.value) := by
  have stored := attr.valid
  rw [resetAttr, if_neg (mt List.contains_iff_mem.mp unlisted)]
  cases default : attr.value with
  | string text =>
    rw [default] at stored
    change storable utf8Valid text = true at stored
    cases value <;>
      simp only [getAttrString, setAttrString, held, stored, if_true, PurpleValue.kind]
    case string current =>
      by_cases same : current = text
      · exact ⟨.string current, by simp [same, held], rfl, fun _ => by rw [same]⟩
      · exact ⟨.string text, by simp [same], rfl, fun _ => rfl⟩
    all_goals
      refine ⟨_, Eq.trans ?_ held, rfl, fun impossible => by cases impossible⟩
      split <;> rfl
  | int number =>
    cases value <;> simp only [getAttrInt, setAttrInt, held, PurpleValue.kind]
    case int current =>
      by_cases same : current = number
      · exact ⟨.int current, by simp [same, held], rfl, fun _ => by rw [same]⟩
      · exact ⟨.int number, by simp [same], rfl, fun _ => rfl⟩
    all_goals
      refine ⟨_, Eq.trans ?_ held, rfl, fun impossible => by cases impossible⟩
      split <;> rfl
  | boolean number =>
    cases value <;> simp only [getAttrBoolean, setAttrBoolean, held, PurpleValue.kind]
    case boolean current =>
      by_cases same : current = number
      · exact ⟨.boolean current, by simp [same, held], rfl, fun _ => by rw [same]⟩
      · exact ⟨.boolean number, by simp [same], rfl, fun _ => rfl⟩
    all_goals
      refine ⟨_, Eq.trans ?_ held, rfl, fun impossible => by cases impossible⟩
      split <;> rfl
  | other type data =>
    refine ⟨value, held, rfl, ?_⟩
    intro same
    cases value <;> simp_all [PurpleValue.kind]

theorem resetUnspecified_changed (attrs : List (PurpleStatusAttr utf8Valid)) (walk : Walk)
    (changed : walk.changed = true) : (resetUnspecified walk attrs).changed = true := by
  induction attrs generalizing walk with
  | nil => exact changed
  | cons attr rest ih => exact ih _ (resetAttr_changed walk attr changed)

theorem resetUnspecified_absent (attrs : List (PurpleStatusAttr utf8Valid))
    (absent : defaultOf attrs key = none ∨ key ∈ walk.specified) :
    (resetUnspecified walk attrs).values key = walk.values key := by
  induction attrs generalizing walk with
  | nil => rfl
  | cons attr rest ih =>
    have skipped : key ≠ attr.id ∨ key ∈ walk.specified := by
      rcases absent with absent | listed
      · left
        intro same
        simp [defaultOf, same] at absent
      · exact Or.inr listed
    have later : defaultOf rest key = none ∨ key ∈ (resetAttr walk attr).specified := by
      rw [resetAttr_specified]
      exact absent.imp_left fun absent => (or_eq_none_iff.mp absent).1
    exact (ih later).trans (resetAttr_skip skipped)

theorem resetUnspecified_default (attrs : List (PurpleStatusAttr utf8Valid))
    (unlisted : key ∉ walk.specified) (held : walk.values key = some value) :
    ∃ next, (resetUnspecified walk attrs).values key = some next ∧ next.kind = value.kind ∧
      ∀ default, defaultOf attrs key = some default → value.kind = default.kind →
        next = default := by
  induction attrs generalizing walk value with
  | nil =>
    refine ⟨value, held, rfl, ?_⟩
    intro default impossible
    cases impossible
  | cons attr rest ih =>
    have unlistedNext : key ∉ (resetAttr walk attr).specified := by
      rw [resetAttr_specified]
      exact unlisted
    by_cases same : attr.id = key
    · subst same
      obtain ⟨middle, reached, middleKind, middleSet⟩ := resetAttr_self unlisted held
      obtain ⟨next, found, kind, set⟩ := ih unlistedNext reached
      refine ⟨next, found, kind.trans middleKind, ?_⟩
      intro default last sameKind
      cases later : defaultOf rest attr.id with
      | none =>
        simp only [defaultOf, later, none_or, if_true, Option.some.injEq] at last
        subst last
        have unchanged : (resetUnspecified (resetAttr walk attr) rest).values attr.id =
            (resetAttr walk attr).values attr.id :=
          resetUnspecified_absent rest (Or.inl later)
        rw [found, reached, Option.some.injEq] at unchanged
        rw [unchanged]
        exact middleSet sameKind
      | some winner =>
        simp only [defaultOf, later, some_or, Option.some.injEq] at last
        subst last
        exact set winner later (middleKind.trans sameKind)
    · have unchanged : (resetAttr walk attr).values key = some value := by
        rw [resetAttr_skip (Or.inl fun equal => same equal.symm)]
        exact held
      obtain ⟨next, found, kind, set⟩ := ih unlistedNext unchanged
      refine ⟨next, found, kind, ?_⟩
      intro default last
      simp only [defaultOf, same, if_false, or_none] at last
      exact set default last

def Typed (type : PurpleStatusType utf8Valid) (values : AttrValues) : Prop :=
  ∀ key, (values key).map PurpleValue.kind = (defaultOf type.attrs key).map PurpleValue.kind

theorem insertDefaults_get (attrs : List (PurpleStatusAttr utf8Valid)) (values : AttrValues)
    (key : CText) : insertDefaults values attrs key = (defaultOf attrs key).or (values key) := by
  induction attrs generalizing values with
  | nil => rfl
  | cons attr rest ih =>
    rw [insertDefaults, ih, defaultOf, Option.or_assoc]
    by_cases same : key = attr.id
    · simp [same]
    · simp [AttrValues.insert_other same, Ne.symm same]

theorem purpleStatusNew_typed (type : PurpleStatusType utf8Valid) :
    Typed type (purpleStatusNew type).attrValues := by
  intro key
  simp [purpleStatusNew, insertDefaults_get]

def expected (pairs : List (Option CText × Gpointer)) (key : CText)
    (default : PurpleValue) : PurpleValue :=
  match supplied pairs key with
  | some data => default.supply data
  | none => default

theorem attrs_written {type : PurpleStatusType utf8Valid} (typed : Typed type values)
    (pairs : List (Option CText × Gpointer)) (changed : Bool) :
    ∃ middle, setSupplied utf8Valid ⟨values, [], changed⟩ (attrsOf pairs) = some middle ∧
      Typed type (resetUnspecified middle type.attrs).values ∧
      (changed = true → (resetUnspecified middle type.attrs).changed = true) ∧
      ∀ key default, defaultOf type.attrs key = some default →
        (∀ data, supplied pairs key = some data → default.accepts utf8Valid data = true) →
        (resetUnspecified middle type.attrs).values key = some (expected pairs key default) := by
  obtain ⟨middle, ran, grows, done⟩ :=
    @setSupplied_attrsOf utf8Valid pairs ⟨values, [], changed⟩
  have both : ∀ key,
      ((resetUnspecified middle type.attrs).values key).map PurpleValue.kind =
        (defaultOf type.attrs key).map PurpleValue.kind ∧
      ∀ default, defaultOf type.attrs key = some default →
        (∀ data, supplied pairs key = some data → default.accepts utf8Valid data = true) →
        (resetUnspecified middle type.attrs).values key = some (expected pairs key default) := by
    intro key
    have typedKey := typed key
    cases declared : defaultOf type.attrs key with
    | none =>
      rw [declared, map_none, map_eq_none_iff] at typedKey
      rw [resetUnspecified_absent type.attrs (Or.inl declared), (done key).absent typedKey]
      exact ⟨rfl, fun default impossible => by cases impossible⟩
    | some default =>
      rw [declared, map_some, map_eq_some_iff] at typedKey
      obtain ⟨value, held, kind⟩ := typedKey
      obtain ⟨reached, found, reachedKind, unchanged, set⟩ := (done key).held value held
      have listed : key ∈ middle.specified ↔ (supplied pairs key).isSome = true := by
        have present : (values key).isSome = true := by rw [held]; rfl
        rw [(done key).specified present]
        simp
      cases given : supplied pairs key with
      | none =>
        rw [given] at listed
        have unlisted : key ∉ middle.specified := fun member => by simp [listed] at member
        obtain ⟨next, last, lastKind, lastSet⟩ :=
          resetUnspecified_default type.attrs unlisted found
        have sameKind := reachedKind.trans kind
        rw [last, lastSet default declared sameKind]
        refine ⟨rfl, ?_⟩
        intro other same _
        cases same
        rw [expected, given]
      | some data =>
        rw [given] at listed
        rw [resetUnspecified_absent type.attrs (Or.inr (listed.mpr rfl)), found]
        refine ⟨congrArg some (reachedKind.trans kind), ?_⟩
        intro other same accepted
        cases same
        rw [expected, given, set data given, supply_of_kind kind]
        rw [accepts_of_kind kind]
        exact accepted data rfl
  exact ⟨middle, ran, fun key => (both key).1,
    fun flag => resetUnspecified_changed type.attrs middle (grows flag),
    fun key => (both key).2⟩

end Purple.Status
