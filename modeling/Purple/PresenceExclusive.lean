/-
At most one exclusive status of a presence is active, and it is the one the
presence names.
-/

import Purple.StatusAttrs

namespace Purple.Status

open List

variable {utf8Valid : CText → Bool}

/-- The status table is a cache: it holds the place of the first status with the
id, which no call changes. -/
structure Exclusive (types : List (PurpleStatusType utf8Valid))
    (presence : PurplePresence utf8Valid) : Prop where
  shape : ∀ index : Nat,
    (presence.statuses[index]?).map (fun status => status.type) = types[index]?
  typed : ∀ (index : Nat) (status : PurpleStatus utf8Valid),
    presence.statuses[index]? = some status → Typed status.type status.attrValues
  table : ∀ id index, presence.statusTable id = some index →
    types.findIdx? (hasId id) = some index
  active : ∀ (index : Nat) (status : PurpleStatus utf8Valid),
    presence.statuses[index]? = some status → status.isExclusive = true →
      (status.active ≠ 0 ↔ presence.activeStatus = some index)
  chosen : ∀ index, presence.activeStatus = some index →
    ∃ status, presence.statuses[index]? = some status ∧ status.isExclusive = true

variable {index : Nat} {status written : PurpleStatus utf8Valid}

theorem exclusive_new (types : List (PurpleStatusType utf8Valid)) :
    Exclusive types (purplePresenceNew types) := by
  have created : ∀ (index : Nat) status, (purplePresenceNew types).statuses[index]? = some status →
      ∃ type, status = purpleStatusNew type := by
    intro index status held
    rw [purplePresenceNew, getElem?_map, Option.map_eq_some_iff] at held
    obtain ⟨type, -, made⟩ := held
    exact ⟨type, made.symm⟩
  refine ⟨?_, ?_, ?_, ?_, ?_⟩
  · intro index
    rw [purplePresenceNew, getElem?_map, Option.map_map]
    exact Option.map_id'
  · intro index status held
    obtain ⟨type, rfl⟩ := created index status held
    exact purpleStatusNew_typed type
  · intro id index impossible
    cases impossible
  · intro index status held _
    obtain ⟨type, rfl⟩ := created index status held
    simp [purpleStatusNew, purplePresenceNew]
  · intro index impossible
    cases impossible

variable {types : List (PurpleStatusType utf8Valid)} {presence : PurplePresence utf8Valid}

/-! ### One call -/

private theorem getElem?_set_map {α : Type} (items : List α) (index other : Nat) (item : α) :
    (items.set index item)[other]? =
      (items[other]?).map (fun old => if other = index then item else old) := by
  by_cases same : other = index
  · subst same
    rw [getElem?_set]
    cases held : items[other]? with
    | none =>
      have outside := List.getElem?_eq_none_iff.mp held
      simp [Nat.not_lt.mpr outside]
    | some old =>
      have within := (List.getElem?_eq_some_iff.mp held).1
      simp [within]
  · simp [getElem?_set_ne (Ne.symm same), same]

private theorem exclusive_of_rewrite (inv : Exclusive types presence)
    {after : PurplePresence utf8Valid}
    (rewrite : Nat → PurpleStatus utf8Valid → PurpleStatus utf8Valid)
    (statuses : ∀ index : Nat, after.statuses[index]? = (presence.statuses[index]?).map (rewrite index))
    (table : after.statusTable = presence.statusTable)
    (sameType : ∀ (index : Nat) status, presence.statuses[index]? = some status →
      (rewrite index status).type = status.type)
    (typed : ∀ (index : Nat) status, presence.statuses[index]? = some status →
      Typed status.type (rewrite index status).attrValues)
    (active : ∀ (index : Nat) status, presence.statuses[index]? = some status →
      status.isExclusive = true →
        ((rewrite index status).active ≠ 0 ↔ after.activeStatus = some index))
    (chosen : ∀ index, after.activeStatus = some index →
      ∃ status, presence.statuses[index]? = some status ∧ status.isExclusive = true) :
    Exclusive types after := by
  have read : ∀ (index : Nat) found, after.statuses[index]? = some found →
      ∃ status, presence.statuses[index]? = some status ∧ rewrite index status = found := by
    intro index found lookup
    rw [statuses, Option.map_eq_some_iff] at lookup
    exact lookup
  have sameExclusive : ∀ (index : Nat) status, presence.statuses[index]? = some status →
      (rewrite index status).isExclusive = status.isExclusive := by
    intro index status held
    unfold PurpleStatus.isExclusive
    rw [sameType index status held]
  refine ⟨?_, ?_, ?_, ?_, ?_⟩
  · intro index
    rw [← inv.shape index, statuses]
    cases held : presence.statuses[index]? with
    | none => rfl
    | some status => simp [sameType index status held]
  · intro index found lookup
    obtain ⟨status, held, rfl⟩ := read index found lookup
    rw [sameType index status held]
    exact typed index status held
  · rw [table]
    exact inv.table
  · intro index found lookup exclusive
    obtain ⟨status, held, rfl⟩ := read index found lookup
    rw [sameExclusive index status held] at exclusive
    exact active index status held exclusive
  · intro index named
    obtain ⟨status, held, exclusive⟩ := chosen index named
    refine ⟨rewrite index status, ?_, ?_⟩
    · rw [statuses, held, Option.map_some]
    · rw [sameExclusive index status held]
      exact exclusive

private theorem exclusive_stored (inv : Exclusive types presence)
    (held : presence.statuses[index]? = some status) (sameType : written.type = status.type)
    (typed : Typed status.type written.attrValues)
    (active : status.isExclusive = true → written.active = status.active) :
    Exclusive types { presence with statuses := presence.statuses.set index written } := by
  refine exclusive_of_rewrite inv (fun other old => if other = index then written else old)
    (fun other => getElem?_set_map presence.statuses index other written) rfl ?_ ?_ ?_ inv.chosen
  · intro other found lookup
    by_cases same : other = index
    · subst same
      rw [held, Option.some.injEq] at lookup
      rw [if_pos rfl, sameType, lookup]
    · rw [if_neg same]
  · intro other found lookup
    by_cases same : other = index
    · subst same
      rw [held, Option.some.injEq] at lookup
      rw [if_pos rfl, ← lookup]
      exact typed
    · rw [if_neg same]
      exact inv.typed other found lookup
  · intro other found lookup exclusive
    by_cases same : other = index
    · subst same
      rw [held, Option.some.injEq] at lookup
      subst lookup
      rw [if_pos rfl, active exclusive]
      exact inv.active other status held exclusive
    · rw [if_neg same]
      exact inv.active other found lookup exclusive

private theorem exclusive_switched (inv : Exclusive types presence)
    (held : presence.statuses[index]? = some status) (sameType : written.type = status.type)
    (typed : Typed status.type written.attrValues) (exclusive : status.isExclusive = true)
    (active : written.active ≠ 0) :
    Exclusive types
      (statusHasChanged { presence with statuses := presence.statuses.set index written }
        index written) := by
  have exclusiveWritten : written.isExclusive = true := by
    unfold PurpleStatus.isExclusive at exclusive ⊢
    rw [sameType]
    exact exclusive
  let switch : Nat → PurpleStatus utf8Valid → PurpleStatus utf8Valid := fun other old =>
    if other = index then written
    else if presence.activeStatus = some other then setInactive old else old
  have named : (statusHasChanged { presence with statuses := presence.statuses.set index written }
      index written).activeStatus = some index := by
    rw [statusHasChanged, if_pos exclusiveWritten]
    split
    · rfl
    · split <;> rfl
  have tabled : (statusHasChanged { presence with statuses := presence.statuses.set index written }
      index written).statusTable = presence.statusTable := by
    rw [statusHasChanged, if_pos exclusiveWritten]
    split
    · rfl
    · split <;> rfl
  have listed : ∀ other : Nat, (statusHasChanged
      { presence with statuses := presence.statuses.set index written } index
        written).statuses[other]? = (presence.statuses[other]?).map (switch other) := by
    intro other
    rw [statusHasChanged, if_pos exclusiveWritten]
    cases before : presence.activeStatus with
    | none => simp [getElem?_set_map, switch, before]
    | some old =>
      by_cases same : old = index
      · subst same
        simp only [before, if_true, getElem?_set_map, switch]
        congr 1
        funext kept
        by_cases here : other = old
        · simp [here]
        · simp [here, Ne.symm here]
      · simp only [same, if_false, getElem?_modify, getElem?_set_map, Option.map_eq_map,
          Option.map_map]
        congr 1
        funext kept
        by_cases here : other = index
        · subst here
          simp [switch, same]
        · simp only [Function.comp, switch, here, if_false, before, Option.some.injEq]
  refine exclusive_of_rewrite inv switch listed tabled ?_ ?_ ?_ ?_
  · intro other found lookup
    by_cases same : other = index
    · subst same
      rw [held, Option.some.injEq] at lookup
      simp only [switch, if_true, sameType, lookup]
    · simp only [switch, same, if_false]
      split <;> rfl
  · intro other found lookup
    by_cases same : other = index
    · subst same
      rw [held, Option.some.injEq] at lookup
      simp only [switch, if_true, ← lookup]
      exact typed
    · have kept := inv.typed other found lookup
      simp only [switch, same, if_false]
      split <;> exact kept
  · intro other found lookup exclusiveFound
    rw [named, Option.some.injEq]
    by_cases same : other = index
    · subst same
      rw [show switch other found = written from if_pos rfl]
      exact iff_of_true active rfl
    · simp only [switch, same, if_false]
      have before := inv.active other found lookup exclusiveFound
      by_cases chosen : presence.activeStatus = some other
      · rw [if_pos chosen]
        exact ⟨fun nonzero => absurd rfl nonzero, fun equal => absurd equal.symm same⟩
      · rw [if_neg chosen, before]
        exact ⟨fun equal => absurd equal chosen, fun equal => absurd equal.symm same⟩
  · intro other equal
    rw [named, Option.some.injEq] at equal
    subst equal
    exact ⟨status, held, exclusive⟩

private theorem statusHasChanged_self (held : presence.statuses[index]? = some status) :
    (statusHasChanged { presence with statuses := presence.statuses.set index written }
      index written).statuses[index]? = some written := by
  have within := (List.getElem?_eq_some_iff.mp held).1
  have stored : (presence.statuses.set index written)[index]? = some written :=
    getElem?_set_self within
  unfold statusHasChanged
  split
  · cases presence.activeStatus with
    | none => exact stored
    | some old =>
      by_cases same : old = index
      · simp only [same, if_true]
        exact stored
      · simp only [same, if_false, getElem?_modify, stored]
        rfl
  · exact stored

/-- The status after an effective call: active as asked for, and each attribute
with the datum given for it or else its default. -/
def Effect (type : PurpleStatusType utf8Valid) (active : Gboolean)
    (pairs : List (Option CText × Gpointer)) (status : PurpleStatus utf8Valid) : Prop :=
  status.active = active ∧
    ∀ key default, defaultOf type.attrs key = some default →
      (∀ data, supplied pairs key = some data → default.accepts utf8Valid data = true) →
      status.attrValues key = some (expected pairs key default)

theorem setActiveWithAttrsList_spec (inv : Exclusive types presence)
    (held : presence.statuses[index]? = some status) (active : Gboolean)
    (pairs : List (Option CText × Gpointer)) :
    ∃ after, purpleStatusSetActiveWithAttrsList presence index active (attrsOf pairs) =
        some after ∧ Exclusive types after ∧
      (active = 0 ∧ status.isExclusive = true → after = presence) ∧
      (¬(active = 0 ∧ status.isExclusive = true) →
        ∃ written, after.statuses[index]? = some written ∧
          Effect status.type active pairs written) := by
  by_cases refused : active = 0 ∧ status.isExclusive = true
  · refine ⟨presence, ?_, inv, fun _ => rfl, fun effective => absurd refused effective⟩
    simp only [purpleStatusSetActiveWithAttrsList, held]
    rw [if_pos refused]
  · obtain ⟨middle, ran, typed, grows, values⟩ := attrs_written (inv.typed index status held)
      pairs (decide (status.active ≠ active))
    let walk := resetUnspecified middle status.type.attrs
    let written : PurpleStatus utf8Valid := { status with active, attrValues := walk.values }
    have computed : purpleStatusSetActiveWithAttrsList presence index active (attrsOf pairs) =
        some (if walk.changed then
          statusHasChanged { presence with statuses := presence.statuses.set index written }
            index written
          else { presence with statuses := presence.statuses.set index written }) := by
      simp only [purpleStatusSetActiveWithAttrsList, held]
      rw [if_neg refused, ran]
    have within := (List.getElem?_eq_some_iff.mp held).1
    have effect : Effect status.type active pairs written := ⟨rfl, values⟩
    cases changed : walk.changed with
    | false =>
      have same : status.active = active := by
        by_contra different
        have flagged := grows (by simpa using different)
        change walk.changed = true at flagged
        rw [changed] at flagged
        cases flagged
      rw [changed] at computed
      exact ⟨_, computed, exclusive_stored inv held rfl typed (fun _ => same.symm),
        fun impossible => absurd impossible refused,
        fun _ => ⟨written, getElem?_set_self within, effect⟩⟩
    | true =>
      rw [changed] at computed
      refine ⟨_, computed, ?_, fun impossible => absurd impossible refused,
        fun _ => ⟨written, statusHasChanged_self held, effect⟩⟩
      cases exclusive : status.isExclusive with
      | true =>
        exact exclusive_switched inv held rfl typed exclusive
          (fun zero => refused ⟨zero, exclusive⟩)
      | false =>
        have independent : written.isExclusive = false := exclusive
        rw [if_pos rfl, statusHasChanged, independent]
        exact exclusive_stored inv held rfl typed
          (fun impossible => by rw [exclusive] at impossible; cases impossible)

/-! ### A call through the id of a status -/

private theorem findIdx?_statuses (inv : Exclusive types presence) (id : CText) :
    presence.statuses.findIdx? (statusHasId id) = types.findIdx? (hasId id) := by
  have mapped : types = presence.statuses.map (fun status => status.type) := by
    apply ext_getElem?
    intro index
    rw [getElem?_map]
    exact (inv.shape index).symm
  rw [mapped, findIdx?_map]
  rfl

private theorem getStatus_spec (inv : Exclusive types presence) (id : CText) :
    (purplePresenceGetStatus presence id).1 = types.findIdx? (hasId id) ∧
      Exclusive types (purplePresenceGetStatus presence id).2 ∧
      (purplePresenceGetStatus presence id).2.statuses = presence.statuses ∧
      (purplePresenceGetStatus presence id).2.activeStatus = presence.activeStatus := by
  unfold purplePresenceGetStatus
  cases cached : presence.statusTable id with
  | some index => exact ⟨(inv.table id index cached).symm, inv, rfl, rfl⟩
  | none =>
    simp only [findIdx?_statuses inv id]
    cases found : types.findIdx? (hasId id) with
    | none => exact ⟨rfl, inv, rfl, rfl⟩
    | some index =>
      refine ⟨rfl, ⟨inv.shape, inv.typed, ?_, inv.active, inv.chosen⟩, rfl, rfl⟩
      intro other place entered
      by_cases same : other = id
      · subst same
        simp only [tableInsert, if_true, Option.some.injEq] at entered
        rw [found, entered]
      · simp only [tableInsert, same, if_false] at entered
        exact inv.table other place entered

def Call.target (types : List (PurpleStatusType utf8Valid)) : Call types.length → Option Nat
  | .setActiveWithAttrsList index _ _ => some index
  | .setStatusActive id _ => types.findIdx? (hasId id)
  | .switchStatus id => types.findIdx? (hasId id)

def Call.active {count : Nat} : Call count → Gboolean
  | .setActiveWithAttrsList _ active _ => active
  | .setStatusActive _ active => active
  | .switchStatus _ => 1

def Call.pairs {count : Nat} : Call count → List (Option CText × Gpointer)
  | .setActiveWithAttrsList _ _ pairs => pairs
  | .setStatusActive _ _ => []
  | .switchStatus _ => []

def Call.Refused (made : Call types.length) (type : PurpleStatusType utf8Valid) : Prop :=
  made.active = 0 ∧ type.isExclusive = true

/-- Everything but the cache of looked up ids, which answers as before. -/
def Unchanged (before after : PurplePresence utf8Valid) : Prop :=
  after.statuses = before.statuses ∧ after.activeStatus = before.activeStatus ∧
    ∀ id, (purplePresenceGetStatus after id).1 = (purplePresenceGetStatus before id).1

def CallEffect (types : List (PurpleStatusType utf8Valid)) (made : Call types.length)
    (before after : PurplePresence utf8Valid) : Prop :=
  ∀ index type, made.target types = some index → types[index]? = some type →
    (made.Refused type → Unchanged before after) ∧
    (¬made.Refused type → ∃ status, after.statuses[index]? = some status ∧
      Effect type made.active made.pairs status)

private theorem held_of_type (inv : Exclusive types presence) {type : PurpleStatusType utf8Valid}
    (listed : types[index]? = some type) :
    ∃ status, presence.statuses[index]? = some status ∧ status.type = type := by
  rw [← inv.shape index, Option.map_eq_some_iff] at listed
  exact listed

private theorem unchanged_refl : Unchanged presence presence := ⟨rfl, rfl, fun _ => rfl⟩

private theorem setStatusActive_spec (inv : Exclusive types presence) (id : CText)
    (active : Gboolean) :
    ∃ after, purplePresenceSetStatusActive presence id active = some after ∧
      Exclusive types after ∧
      CallEffect types (.setStatusActive id active) presence after := by
  obtain ⟨answer, kept, sameStatuses, sameActive⟩ := getStatus_spec inv id
  cases looked : purplePresenceGetStatus presence id with
  | mk found cached =>
    rw [looked] at answer kept sameStatuses sameActive
    simp only at answer kept sameStatuses sameActive
    have unchanged : Unchanged presence cached :=
      ⟨sameStatuses, sameActive, fun other =>
        (getStatus_spec kept other).1.trans (getStatus_spec inv other).1.symm⟩
    cases found with
    | none =>
      refine ⟨cached, by simp only [purplePresenceSetStatusActive, looked], kept, ?_⟩
      intro index type target
      change types.findIdx? (hasId id) = some index at target
      rw [← answer] at target
      cases target
    | some place =>
      have within : place < types.length := (findIdx?_eq_some_iff_getElem.mp answer.symm).1
      obtain ⟨status, held, ofType⟩ :=
        held_of_type kept (getElem?_eq_getElem within)
      have onlyTarget : ∀ index type, types.findIdx? (hasId id) = some index →
          types[index]? = some type → index = place ∧ type = status.type := by
        intro index type target listed
        rw [← answer, Option.some.injEq] at target
        subst target
        rw [getElem?_eq_getElem within, Option.some.injEq] at listed
        exact ⟨rfl, (ofType.trans listed).symm⟩
      by_cases refused : status.isExclusive = true ∧ active = 0
      · refine ⟨cached, ?_, kept, ?_⟩
        · simp only [purplePresenceSetStatusActive, looked, held]
          rw [if_pos refused]
        · intro index type target listed
          obtain ⟨rfl, rfl⟩ := onlyTarget index type target listed
          exact ⟨fun _ => unchanged,
            fun effective => absurd ⟨refused.2, refused.1⟩ effective⟩
      · obtain ⟨after, ran, inv', -, effective⟩ :=
          setActiveWithAttrsList_spec kept held active []
        refine ⟨after, ?_, inv', ?_⟩
        · simp only [purplePresenceSetStatusActive, looked, held]
          rw [if_neg refused]
          exact ran
        · intro index type target listed
          obtain ⟨rfl, rfl⟩ := onlyTarget index type target listed
          exact ⟨fun asked => absurd ⟨asked.2, asked.1⟩ refused, effective⟩

theorem call_spec (inv : Exclusive types presence) (made : Call types.length) :
    ∃ after, call presence made = some after ∧ Exclusive types after ∧
      CallEffect types made presence after := by
  cases made with
  | setActiveWithAttrsList index active pairs =>
    obtain ⟨status, held, ofType⟩ :=
      held_of_type inv (getElem?_eq_getElem index.isLt)
    obtain ⟨after, ran, kept, refused, effective⟩ :=
      setActiveWithAttrsList_spec inv held active pairs
    refine ⟨after, ran, kept, ?_⟩
    intro place type target listed
    cases target
    rw [getElem?_eq_getElem index.isLt, Option.some.injEq] at listed
    have sameType := ofType.trans listed
    subst sameType
    refine ⟨fun asked => ?_, effective⟩
    rw [refused asked]
    exact unchanged_refl
  | setStatusActive id active => exact setStatusActive_spec inv id active
  | switchStatus id => exact setStatusActive_spec inv id 1

/-- In every state that calls reach, the exclusive status that is active is the
one the presence names, so there is at most one, and the next call has its
effect on the status it is about. -/
theorem presence_exclusive (types : List (PurpleStatusType utf8Valid))
    (calls : List (Call types.length)) :
    ∃ presence, PartialRun.run call (purplePresenceNew types) calls = some presence ∧
      (∀ (first second : Nat) (left right : PurpleStatus utf8Valid),
        presence.statuses[first]? = some left → presence.statuses[second]? = some right →
        left.isExclusive = true → right.isExclusive = true →
        left.active ≠ 0 → right.active ≠ 0 → first = second) ∧
      (∀ (index : Nat) (status : PurpleStatus utf8Valid),
        presence.statuses[index]? = some status → status.isExclusive = true →
        (status.active ≠ 0 ↔ presence.activeStatus = some index)) ∧
      ∀ next : Call types.length, ∃ after, call presence next = some after ∧
        CallEffect types next presence after := by
  obtain ⟨presence, ran, inv⟩ := PartialRun.reached (Exclusive types)
    (fun before made kept _ => by
      obtain ⟨after, stepped, keptAfter, -⟩ := call_spec kept made
      exact ⟨after, stepped, keptAfter⟩)
    (exclusive_new types) (PartialRun.admitted_always calls) (prefix_refl calls)
  refine ⟨presence, ran, ?_, inv.active, ?_⟩
  · intro first second left right leftAt rightAt leftExclusive rightExclusive leftOn rightOn
    have leftNamed := (inv.active first left leftAt leftExclusive).mp leftOn
    have rightNamed := (inv.active second right rightAt rightExclusive).mp rightOn
    rw [leftNamed, Option.some.injEq] at rightNamed
    exact rightNamed
  · intro next
    obtain ⟨after, stepped, -, effect⟩ := call_spec inv next
    exact ⟨after, stepped, effect⟩

def ascii (text : CText) : Bool := text.all (· < 128)

/-- The mood status of a protocol, with its text attribute `m`. -/
def mood : PurpleStatusType ascii :=
  { id := [109], independent := true, attrs := [⟨[109], .string none, rfl⟩] }

/-- `purple_value_set_string` drops bytes that are no UTF-8. -/
theorem supplied_not_stored :
    ¬ ∀ (calls : List (Call [mood].length)) (presence after : PurplePresence ascii)
      (pairs : List (Option CText × Gpointer)) (key : CText) (default : PurpleValue)
      (data : Gpointer), PartialRun.run call (purplePresenceNew [mood]) calls = some presence →
      call presence (@Call.setActiveWithAttrsList 1 0 1 pairs) = some after →
      defaultOf mood.attrs key = some default → supplied pairs key = some data →
      ∃ status, after.statuses[0]? = some status ∧
        status.attrValues key = some (default.supply data) := by
  intro claim
  obtain ⟨status, held, stored⟩ := claim [] (purplePresenceNew [mood]) _
    [(some [109], ⟨some [255], 0⟩)] [109] (.string none) ⟨some [255], 0⟩ rfl rfl rfl rfl
  cases held
  have dropped : (some (PurpleValue.string none) : Option PurpleValue) =
      some (.string (some [255])) := stored
  cases dropped

end Purple.Status
