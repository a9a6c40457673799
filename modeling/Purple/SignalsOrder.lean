/-
The handlers of a signal in the order of the list, and what mutations leave of
that order.

`[first, second] <+ handlers` says that `first` stands before `second`.
-/

import Mathlib.Data.List.Induction
import Purple.Signals

namespace Purple.Signals

open List

open scoped List

section Pairs

variable {α : Type} {items kept : List α} {first second : α}

theorem precedes_total (here : first ∈ items) (there : second ∈ items)
    (different : first ≠ second) : [first, second] <+ items ∨ [second, first] <+ items := by
  induction items with
  | nil => cases here
  | cons head rest ih =>
    rcases mem_cons.mp here with rfl | inRest
    · have behind := (mem_cons.mp there).resolve_left (Ne.symm different)
      exact Or.inl ((singleton_sublist.mpr behind).cons_cons first)
    · rcases mem_cons.mp there with rfl | alsoInRest
      · exact Or.inr ((singleton_sublist.mpr inRest).cons_cons second)
      · exact (ih inRest alsoInRest).imp (fun pair => pair.cons head) (fun pair => pair.cons head)

theorem precedes_asymm (distinct : items.Nodup) (forward : [first, second] <+ items) :
    ¬[second, first] <+ items := by
  induction items with
  | nil => cases forward
  | cons head rest ih =>
    obtain ⟨fresh, tail⟩ := nodup_cons.mp distinct
    intro backward
    cases forward with
    | cons _ inRest =>
      cases backward with
      | cons _ alsoInRest => exact ih tail inRest alsoInRest
      | cons_cons _ _ => exact fresh (inRest.subset (by simp))
    | cons_cons _ behind =>
      cases backward with
      | cons _ inRest => exact fresh (inRest.subset (by simp))
      | cons_cons _ _ => exact fresh (singleton_sublist.mp behind)

theorem precedes_of_sublist (distinct : items.Nodup) (sublist : kept <+ items)
    (here : first ∈ kept) (there : second ∈ kept) (pair : [first, second] <+ items) :
    [first, second] <+ kept := by
  have different : first ≠ second := by
    rintro rfl
    exact nodup_iff_sublist.mp distinct first pair
  rcases precedes_total here there different with forward | backward
  · exact forward
  · exact absurd (backward.trans sublist) (precedes_asymm distinct pair)

theorem precedes_append {before behind : List α} {middle : α} (member : first ∈ before) :
    [first, middle] <+ before ++ middle :: behind :=
  (singleton_sublist.mpr member).append (singleton_sublist.mpr mem_cons_self)

theorem append_precedes {before behind : List α} {middle : α} (member : second ∈ behind) :
    [middle, second] <+ before ++ middle :: behind :=
  ((singleton_sublist.mpr member).cons_cons middle).trans
    (sublist_append_right before _)

theorem sublist_insertSorted (compare : α → α → Int) (item : α) (items : List α) :
    items <+ gListInsertSorted compare item items := by
  induction items with
  | nil => exact nil_sublist _
  | cons head rest ih =>
    rw [gListInsertSorted]
    split
    · exact ih.cons_cons head
    · exact sublist_cons_self item _

theorem mem_insertSorted {compare : α → α → Int} {item other : α} {items : List α} :
    other ∈ gListInsertSorted compare item items ↔ other = item ∨ other ∈ items := by
  induction items with
  | nil => simp [gListInsertSorted]
  | cons head rest ih =>
    rw [gListInsertSorted]
    split
    · rw [mem_cons, ih, mem_cons]
      exact or_left_comm
    · rw [mem_cons]

end Pairs

/-- Every address in use is below `fresh`. -/
structure Ordered (fresh : Nat) (handlers : List HandlerData) : Prop where
  sorted : handlers.Pairwise fun left right => left.priority ≤ right.priority
  distinct : (handlers.map HandlerData.address).Nodup
  bounded : ∀ handler ∈ handlers, handler.address < fresh

variable {handler : HandlerData} {registry : Registry}

theorem handlerPriority_pos {left right : HandlerData} :
    handlerPriority left right > 0 ↔ right.priority < left.priority := by
  unfold handlerPriority
  by_cases above : left.priority > right.priority
  · simp [above]
  · rw [if_neg above]
    constructor
    · intro positive
      split at positive <;> cases positive
    · intro below
      exact absurd below above

variable {fresh next : Nat} {handlers : List HandlerData}

theorem Ordered.mono (ordered : Ordered fresh handlers) (later : fresh ≤ next) :
    Ordered next handlers :=
  ⟨ordered.sorted, ordered.distinct, fun handler member =>
    Nat.lt_of_lt_of_le (ordered.bounded handler member) later⟩

theorem Ordered.nil : Ordered fresh [] :=
  ⟨List.Pairwise.nil, nodup_nil, fun _ member => by cases member⟩

theorem Ordered.nodup (ordered : Ordered fresh handlers) : handlers.Nodup :=
  List.Nodup.of_map HandlerData.address ordered.distinct

theorem Ordered.sublist {kept : List HandlerData} (ordered : Ordered fresh handlers)
    (sublist : kept <+ handlers) : Ordered fresh kept :=
  ⟨ordered.sorted.sublist sublist, ordered.distinct.sublist (sublist.map _),
    fun handler member => ordered.bounded handler (sublist.subset member)⟩

private theorem insertSorted_sorted
    (sorted : handlers.Pairwise fun left right => left.priority ≤ right.priority) :
    (gListInsertSorted handlerPriority handler handlers).Pairwise
      fun left right => left.priority ≤ right.priority := by
  induction handlers with
  | nil => exact pairwise_singleton _ _
  | cons head rest ih =>
    obtain ⟨first, tail⟩ := pairwise_cons.mp sorted
    rw [gListInsertSorted]
    split
    · rename_i above
      rw [handlerPriority_pos] at above
      refine pairwise_cons.mpr ⟨?_, ih tail⟩
      intro other member
      rcases mem_insertSorted.mp member with rfl | inRest
      · exact Int32.le_of_lt above
      · exact first other inRest
    · rename_i notAbove
      rw [handlerPriority_pos, Int32.not_lt] at notAbove
      refine pairwise_cons.mpr ⟨?_, sorted⟩
      intro other member
      rcases mem_cons.mp member with rfl | inRest
      · exact notAbove
      · exact Int32.le_trans notAbove (first other inRest)

private theorem insertSorted_distinct (new : ∀ other ∈ handlers, other.address ≠ handler.address)
    (distinct : (handlers.map HandlerData.address).Nodup) :
    ((gListInsertSorted handlerPriority handler handlers).map HandlerData.address).Nodup := by
  induction handlers with
  | nil => exact nodup_singleton _
  | cons head rest ih =>
    obtain ⟨unused, tail⟩ := nodup_cons.mp distinct
    rw [gListInsertSorted]
    split
    · rw [map_cons, nodup_cons]
      refine ⟨?_, ih (fun other member => new other (mem_cons_of_mem _ member)) tail⟩
      intro member
      obtain ⟨other, inserted, same⟩ := List.mem_map.mp member
      rcases mem_insertSorted.mp inserted with rfl | inRest
      · exact new head mem_cons_self same.symm
      · exact unused (List.mem_map.mpr ⟨other, inRest, same⟩)
    · rw [map_cons, nodup_cons]
      refine ⟨?_, distinct⟩
      intro member
      obtain ⟨other, inHandlers, same⟩ := List.mem_map.mp member
      exact new other inHandlers same

theorem Ordered.insertSorted (ordered : Ordered fresh handlers) (new : handler.address = fresh)
    (used : fresh < next) : Ordered next (gListInsertSorted handlerPriority handler handlers) := by
  refine ⟨insertSorted_sorted ordered.sorted, insertSorted_distinct ?_ ordered.distinct, ?_⟩
  · intro other member same
    exact Nat.ne_of_lt (ordered.bounded other member) (same.trans new)
  · intro other member
    rcases mem_insertSorted.mp member with rfl | old
    · rw [new]
      exact used
    · exact Nat.lt_trans (ordered.bounded other old) used

/-- How many handlers of the same priority stand behind `handler`. -/
def behind (handler : HandlerData) : List HandlerData → Nat
  | [] => 0
  | head :: rest =>
    if head = handler then rest.countP (fun other => other.priority == handler.priority)
    else behind handler rest

theorem behind_sublist {kept : List HandlerData} (distinct : handlers.Nodup)
    (sublist : kept <+ handlers) (present : handler ∈ kept) :
    behind handler kept ≤ behind handler handlers := by
  induction sublist with
  | slnil => cases present
  | cons head sublist ih =>
    obtain ⟨unused, tail⟩ := nodup_cons.mp distinct
    have different : head ≠ handler := by
      rintro rfl
      exact unused (sublist.subset present)
    rw [behind, if_neg different]
    exact ih tail present
  | cons_cons head sublist ih =>
    obtain ⟨-, tail⟩ := nodup_cons.mp distinct
    rw [behind, behind]
    by_cases same : head = handler
    · rw [if_pos same, if_pos same]
      exact sublist.countP_le
    · rw [if_neg same, if_neg same]
      exact ih tail ((mem_cons.mp present).resolve_left (Ne.symm same))

theorem countP_insertSorted {test : HandlerData → Bool} (fails : test handler = false) :
    (gListInsertSorted handlerPriority handler handlers).countP test = handlers.countP test := by
  induction handlers with
  | nil => simp [gListInsertSorted, fails]
  | cons head rest ih =>
    rw [gListInsertSorted]
    split
    · rw [countP_cons, ih, countP_cons]
    · rw [countP_cons_of_neg (by simp [fails])]

theorem behind_insertSorted {new : HandlerData} (different : new ≠ handler) :
    behind handler (gListInsertSorted handlerPriority new handlers) =
      behind handler handlers := by
  induction handlers with
  | nil => simp [gListInsertSorted, behind, different]
  | cons head rest ih =>
    rw [gListInsertSorted]
    split
    · rename_i above
      rw [handlerPriority_pos] at above
      rw [behind, behind]
      by_cases same : head = handler
      · subst same
        rw [if_pos rfl, if_pos rfl]
        apply countP_insertSorted
        simpa using (Int32.ne_of_lt above).symm
      · rw [if_neg same, if_neg same]
        exact ih
    · rw [behind, if_neg different]

/-- From one list to a later one, while every new address is `fresh` or above. -/
structure Evolves (fresh : Nat) (before after : List HandlerData) : Prop where
  gone : ∀ handler, handler.address < fresh → handler ∉ before → handler ∉ after
  order : ∀ first second, first ∈ after → second ∈ after → [first, second] <+ before →
    [first, second] <+ after
  later : ∀ handler, handler ∈ before → handler ∈ after →
    behind handler after ≤ behind handler before

theorem Evolves.refl (handlers : List HandlerData) : Evolves fresh handlers handlers :=
  ⟨fun _ _ absent => absent, fun _ _ _ _ pair => pair, fun _ _ _ => Nat.le_refl _⟩

theorem Evolves.trans {middle last : List HandlerData} (ordered : Ordered fresh handlers)
    (left : Evolves fresh handlers middle) (right : Evolves next middle last)
    (grows : fresh ≤ next) : Evolves fresh handlers last := by
  have between : ∀ handler ∈ handlers, handler ∈ last → handler ∈ middle := by
    intro handler before after
    by_contra absent
    have below := Nat.lt_of_lt_of_le (ordered.bounded handler before) grows
    exact right.gone handler below absent after
  refine ⟨?_, ?_, ?_⟩
  · intro handler below absent
    exact right.gone handler (Nat.lt_of_lt_of_le below grows) (left.gone handler below absent)
  · intro first second firstLast secondLast pair
    have firstHere : first ∈ handlers := pair.subset (by simp)
    have secondHere : second ∈ handlers := pair.subset (by simp)
    exact right.order first second firstLast secondLast
      (left.order first second (between first firstHere firstLast)
        (between second secondHere secondLast) pair)
  · intro handler before after
    have here := between handler before after
    exact Nat.le_trans (right.later handler here after) (left.later handler before here)

theorem evolves_sublist {kept : List HandlerData} (ordered : Ordered fresh handlers)
    (sublist : kept <+ handlers) : Evolves fresh handlers kept :=
  ⟨fun _ _ absent present => absent (sublist.subset present),
    fun _ _ here there pair => precedes_of_sublist ordered.nodup sublist here there pair,
    fun _ _ present => behind_sublist ordered.nodup sublist present⟩

theorem evolves_insertSorted {new : HandlerData} (ordered : Ordered fresh handlers)
    (address : new.address = fresh) :
    Evolves fresh handlers (gListInsertSorted handlerPriority new handlers) := by
  refine ⟨?_, ?_, ?_⟩
  · intro handler below absent present
    rcases mem_insertSorted.mp present with rfl | old
    · exact Nat.ne_of_lt below address
    · exact absent old
  · intro first second _ _ pair
    exact pair.trans (sublist_insertSorted _ _ _)
  · intro handler present _
    have different : new ≠ handler := by
      rintro rfl
      exact Nat.ne_of_lt (ordered.bounded new present) address
    exact Nat.le_of_eq (behind_insertSorted different)

theorem disconnectHandleLoop_fst (handle : Pointer) (handlers : List HandlerData) (count : Nat) :
    (disconnectHandleLoop handle handlers count).1 <+ handlers := by
  induction handlers generalizing count with
  | nil => exact List.Sublist.refl []
  | cons handler rest ih =>
    rw [disconnectHandleLoop]
    split
    · exact (ih _).cons handler
    · exact (ih count).cons_cons handler

theorem handlerChange_spec {before after : SignalData} (grows : fresh ≤ next)
    (change : HandlerChange fresh next before after) (ordered : Ordered fresh before.handlers) :
    Ordered next after.handlers ∧ Evolves fresh before.handlers after.handlers := by
  cases change with
  | same => exact ⟨ordered.mono grows, Evolves.refl _⟩
  | connected handler new used =>
    exact ⟨Ordered.insertSorted ordered new used, evolves_insertSorted ordered new⟩
  | disconnected handle func =>
    have sublist : (disconnectFirst handle func before).handlers <+ before.handlers := by
      unfold disconnectFirst
      split
      · exact eraseP_sublist
      · exact List.Sublist.refl _
    exact ⟨(ordered.sublist sublist).mono grows, evolves_sublist ordered sublist⟩
  | handleGone handle signal =>
    have sublist := disconnectHandleLoop_fst handle before.handlers before.handlerCount
    exact ⟨(ordered.sublist sublist).mono grows, evolves_sublist ordered sublist⟩

def handlersIn : Option SignalData → List HandlerData
  | none => []
  | some data => data.handlers

def handlersOf (registry : Registry) (inst : Pointer) (signal : SignalName) : List HandlerData :=
  handlersIn (signalOf registry inst signal)

def AllOrdered (registry : Registry) : Prop :=
  ∀ inst signal, Ordered registry.nextAddress (handlersOf registry inst signal)

theorem mutate_spec (ordered : AllOrdered registry) (mutation : Mutation) :
    AllOrdered (mutate registry mutation) ∧
      ∀ inst signal, Evolves registry.nextAddress (handlersOf registry inst signal)
        (handlersOf (mutate registry mutation) inst signal) := by
  have each : ∀ inst signal,
      Ordered (mutate registry mutation).nextAddress
          (handlersOf (mutate registry mutation) inst signal) ∧
        Evolves registry.nextAddress (handlersOf registry inst signal)
          (handlersOf (mutate registry mutation) inst signal) := by
    intro inst signal
    have change := mutate_signalOf registry mutation inst signal
    have here := ordered inst signal
    unfold handlersOf at here ⊢
    cases before : signalOf registry inst signal with
    | none =>
      cases after : signalOf (mutate registry mutation) inst signal with
      | none => exact ⟨Ordered.nil, Evolves.refl _⟩
      | some data => rw [before, after] at change; cases change
    | some old =>
      cases after : signalOf (mutate registry mutation) inst signal with
      | none => rw [before, after] at change; cases change
      | some data =>
        rw [before, after] at change
        rw [before] at here
        exact handlerChange_spec (mutate_nextAddress registry mutation) change here
  exact ⟨fun inst signal => (each inst signal).1, fun inst signal => (each inst signal).2⟩

theorem mutations_spec (ordered : AllOrdered registry) (mutations : List Mutation) :
    AllOrdered (mutations.foldl mutate registry) ∧
      registry.nextAddress ≤ (mutations.foldl mutate registry).nextAddress ∧
      ∀ inst signal, Evolves registry.nextAddress (handlersOf registry inst signal)
        (handlersOf (mutations.foldl mutate registry) inst signal) := by
  induction mutations generalizing registry with
  | nil => exact ⟨ordered, Nat.le_refl _, fun _ _ => Evolves.refl _⟩
  | cons mutation rest ih =>
    obtain ⟨orderedNext, evolves⟩ := mutate_spec ordered mutation
    obtain ⟨orderedLast, grows, evolvesRest⟩ := ih orderedNext
    have first := mutate_nextAddress registry mutation
    exact ⟨orderedLast, Nat.le_trans first grows, fun inst signal =>
      (evolves inst signal).trans (ordered inst signal) (evolvesRest inst signal) first⟩

theorem ordered_apply (ordered : AllOrdered registry) (call : Call) :
    AllOrdered (apply registry call) := by
  cases call with
  | mutate mutation => exact (mutate_spec ordered mutation).1
  | register inst signal =>
    intro other name
    simp only [apply, purpleSignalRegister]
    split
    · exact ordered other name
    · have here := ordered other name
      unfold handlersOf at here ⊢
      rw [signalOf_insert]
      split
      · rename_i same
        subst same
        by_cases sameName : name = signal
        · subst sameName
          rw [HashTable.lookup_insert_self]
          exact Ordered.nil
        · rw [HashTable.lookup_insert_other _ sameName]
          unfold signalOf at here
          cases held : registry.instanceTable.lookup other with
          | none => exact Ordered.nil
          | some data =>
            rw [held] at here
            exact here
      · exact here
  | unregister inst signal =>
    intro other name
    have here := ordered other name
    simp only [apply, purpleSignalUnregister]
    cases held : registry.instanceTable.lookup inst with
    | none => exact here
    | some data =>
      by_cases last : data.signalCount - 1 = 0
      · simp only [if_pos last]
        by_cases same : other = inst
        · subst same
          have gone : handlersOf
              { registry with instanceTable := registry.instanceTable.remove other } other
                name = [] := by
            simp [handlersOf, signalOf, handlersIn]
          rw [gone]
          exact Ordered.nil
        · unfold handlersOf signalOf at here ⊢
          rw [HashTable.lookup_remove_other _ same]
          exact here
      · simp only [if_neg last]
        unfold handlersOf at here ⊢
        rw [signalOf_insert]
        split
        · rename_i same
          subst same
          by_cases sameName : name = signal
          · subst sameName
            rw [HashTable.lookup_remove_self]
            exact Ordered.nil
          · rw [HashTable.lookup_remove_other _ sameName]
            unfold signalOf at here
            rw [held] at here
            exact here
        · exact here

theorem ordered_calls (calls : List Call) : AllOrdered (calls.foldl apply purpleSignalsInit) := by
  have start : AllOrdered purpleSignalsInit := fun _ _ => Ordered.nil
  induction calls using List.reverseRecOn with
  | nil => exact start
  | append_singleton before call ih =>
    rw [foldl_append]
    exact ordered_apply ih call

end Purple.Signals
