/-
The counters of the signal registry against what is registered and connected.

What is registered is followed beside the registry: the names of the signals by
the calls alone, whatever the counters say.
-/

import Purple.PartialRun
import Purple.Signals

namespace Purple.Signals

open List Option

abbrev Registered := List (Pointer × SignalName)

/-- `NULL` is no instance. -/
def note (registered : Registered) : Call → Registered
  | .register inst signal => if inst = 0 then registered else (inst, signal) :: registered
  | .unregister inst signal => registered.filter (· ≠ (inst, signal))
  | .mutate _ => registered

def step (state : Registry × Registered) (call : Call) : Option (Registry × Registered) :=
  some (apply state.1 call, note state.2 call)

/-- A signal is registered once at a time, and on an instance with signals only
a registered one is unregistered. -/
def admits (state : Registry × Registered) : Call → Prop
  | .register inst signal => (inst, signal) ∉ state.2
  | .unregister inst signal => (inst, signal) ∈ state.2 ∨ ∀ other, (inst, other) ∉ state.2
  | .mutate _ => True

/-- The counters count, and the table holds the instances with a registered
signal and of these all their registered signals. -/
structure Agrees (registry : Registry) (registered : Registered) : Prop where
  signalCount : ∀ inst data, registry.instanceTable.lookup inst = some data →
    data.signalCount = data.signals.size
  handlerCount : ∀ inst signal data, signalOf registry inst signal = some data →
    data.handlerCount = data.handlers.length
  instances : ∀ inst, (registry.instanceTable.lookup inst).isSome = true ↔
    ∃ signal, (inst, signal) ∈ registered
  signals : ∀ inst signal, (signalOf registry inst signal).isSome = true ↔
    (inst, signal) ∈ registered

private theorem length_insertSorted {α : Type} (compare : α → α → Int) (item : α)
    (items : List α) : (gListInsertSorted compare item items).length = items.length + 1 := by
  induction items with
  | nil => rfl
  | cons head rest ih =>
    rw [gListInsertSorted]
    split
    · rw [length_cons, ih, length_cons]
    · rfl

private theorem disconnectHandleLoop_length (handle : Pointer) (handlers : List HandlerData)
    (others : Nat) :
    (disconnectHandleLoop handle handlers (others + handlers.length)).2 =
      others + (disconnectHandleLoop handle handlers (others + handlers.length)).1.length := by
  induction handlers generalizing others with
  | nil => rfl
  | cons handler rest ih =>
    rw [disconnectHandleLoop]
    split
    · have counted : others + (handler :: rest).length - 1 = others + rest.length := by
        rw [length_cons]
        omega
      rw [counted]
      exact ih others
    · have counted : others + (handler :: rest).length = others + 1 + rest.length := by
        rw [length_cons]
        omega
      have kept := ih (others + 1)
      rw [counted]
      simp only [length_cons]
      omega

theorem handlerChange_count {fresh next : Nat} {before after : SignalData}
    (change : HandlerChange fresh next before after)
    (counted : before.handlerCount = before.handlers.length) :
    after.handlerCount = after.handlers.length := by
  cases change with
  | same => exact counted
  | connected handler new used =>
    simp only [connectHandler, length_insertSorted, counted]
  | disconnected handle func =>
    unfold disconnectFirst
    split
    · rename_i found
      obtain ⟨handler, member, wanted⟩ := List.any_eq_true.mp found
      simp only [counted, length_eraseP_of_mem member wanted]
    · exact counted
  | handleGone handle signal =>
    have kept := disconnectHandleLoop_length handle before.handlers 0
    rw [Nat.zero_add, Nat.zero_add] at kept
    simp only [disconnectHandleFromSignals, counted]
    exact kept

variable {registry : Registry} {registered : Registered}

theorem agrees_init : Agrees purpleSignalsInit [] := by
  refine ⟨?_, ?_, ?_, ?_⟩
  · intro inst data impossible
    cases impossible
  · intro inst signal data impossible
    cases impossible
  · intro inst
    simp [purpleSignalsInit]
  · intro inst signal
    simp [signalOf, purpleSignalsInit]

private theorem agrees_mutate (agrees : Agrees registry registered) (mutation : Mutation) :
    Agrees (mutate registry mutation) registered := by
  refine ⟨?_, ?_, ?_, ?_⟩
  · intro inst data held
    have shape := mutate_instance registry mutation inst
    rw [held] at shape
    cases before : registry.instanceTable.lookup inst with
    | none => rw [before] at shape; cases shape
    | some old =>
      rw [before, map_some, map_some, Option.some.injEq, Prod.mk.injEq] at shape
      rw [shape.1, shape.2]
      exact agrees.signalCount inst old before
  · intro inst signal data held
    have change := mutate_signalOf registry mutation inst signal
    rw [held] at change
    cases before : signalOf registry inst signal with
    | none => rw [before] at change; cases change
    | some old =>
      rw [before] at change
      exact handlerChange_count change (agrees.handlerCount inst signal old before)
  · intro inst
    rw [← agrees.instances inst]
    have shape := congrArg Option.isSome (mutate_instance registry mutation inst)
    rw [isSome_map, isSome_map] at shape
    rw [shape]
  · intro inst signal
    rw [← agrees.signals inst signal]
    have change := mutate_signalOf registry mutation inst signal
    cases before : signalOf registry inst signal with
    | none =>
      cases after : signalOf (mutate registry mutation) inst signal with
      | none => rfl
      | some data => rw [before, after] at change; cases change
    | some old =>
      cases after : signalOf (mutate registry mutation) inst signal with
      | none => rw [before, after] at change; cases change
      | some data => rfl

private theorem agrees_register (agrees : Agrees registry registered) (inst : Pointer)
    (signal : SignalName) (fresh : (inst, signal) ∉ registered) :
    Agrees (purpleSignalRegister registry inst signal)
      (note registered (.register inst signal)) := by
  by_cases null : inst = 0
  · simp only [purpleSignalRegister, note, if_pos null]
    exact agrees
  · have absent : signalOf registry inst signal = none := by
      rw [← not_isSome_iff_eq_none, agrees.signals]
      exact fresh
    -- a new instance starts with an empty table, which agrees as well
    obtain ⟨data, used, counted, none, handlers, here⟩ : ∃ data : InstanceData,
        (registry.instanceTable.lookup inst).getD newInstanceData = data ∧
        data.signalCount = data.signals.size ∧ data.signals.lookup signal = none ∧
        (∀ name record, data.signals.lookup name = some record →
          record.handlerCount = record.handlers.length) ∧
        ∀ name, (data.signals.lookup name).isSome = true ↔ (inst, name) ∈ registered := by
      cases held : registry.instanceTable.lookup inst with
      | none =>
        have nothing : ∀ name, (inst, name) ∉ registered := by
          intro name member
          have there := (agrees.instances inst).mpr ⟨name, member⟩
          rw [held] at there
          cases there
        refine ⟨newInstanceData, rfl, rfl, rfl, ?_, ?_⟩
        · intro name record impossible
          cases impossible
        · intro name
          exact iff_of_false (fun impossible => by cases impossible) (nothing name)
      | some data =>
        have same : ∀ name, signalOf registry inst name = data.signals.lookup name := by
          intro name
          simp [signalOf, held]
        refine ⟨data, rfl, agrees.signalCount inst data held, ?_, ?_, ?_⟩
        · rw [← same]
          exact absent
        · intro name record found
          rw [← same] at found
          exact agrees.handlerCount inst name record found
        · intro name
          rw [← same]
          exact agrees.signals inst name
    simp only [purpleSignalRegister, note, if_neg null, used]
    refine ⟨?_, ?_, ?_, ?_⟩
    · intro other record held
      by_cases same : other = inst
      · subst same
        rw [HashTable.lookup_insert_self, Option.some.injEq] at held
        subst held
        simp only [HashTable.size_insert_new none, counted]
      · rw [HashTable.lookup_insert_other _ same] at held
        exact agrees.signalCount other record held
    · intro other name record held
      rw [signalOf_insert] at held
      split at held
      · by_cases sameName : name = signal
        · subst sameName
          rw [HashTable.lookup_insert_self, Option.some.injEq] at held
          subst held
          rfl
        · rw [HashTable.lookup_insert_other _ sameName] at held
          exact handlers name record held
      · exact agrees.handlerCount other name record held
    · intro other
      by_cases same : other = inst
      · subst same
        rw [HashTable.lookup_insert_self]
        exact iff_of_true rfl ⟨signal, mem_cons_self⟩
      · rw [HashTable.lookup_insert_other _ same, agrees.instances]
        simp [same]
    · intro other name
      rw [signalOf_insert]
      by_cases same : other = inst
      · subst same
        rw [if_pos rfl, mem_cons]
        by_cases sameName : name = signal
        · subst sameName
          rw [HashTable.lookup_insert_self]
          exact iff_of_true rfl (Or.inl rfl)
        · rw [HashTable.lookup_insert_other _ sameName, here]
          simp [sameName]
      · rw [if_neg same, agrees.signals]
        simp [same]

private theorem agrees_unregister (agrees : Agrees registry registered) (inst : Pointer)
    (signal : SignalName)
    (known : (inst, signal) ∈ registered ∨ ∀ other, (inst, other) ∉ registered) :
    Agrees (purpleSignalUnregister registry inst signal)
      (note registered (.unregister inst signal)) := by
  simp only [purpleSignalUnregister, note]
  cases held : registry.instanceTable.lookup inst with
  | none =>
    have nothing : ∀ name, (inst, name) ∉ registered := by
      intro name member
      have there := (agrees.instances inst).mpr ⟨name, member⟩
      rw [held] at there
      cases there
    have unchanged : registered.filter (· ≠ (inst, signal)) = registered := by
      rw [filter_eq_self]
      intro entry member
      have different : entry ≠ (inst, signal) := by
        intro same
        exact nothing signal (same ▸ member)
      simpa using different
    rw [unchanged]
    exact agrees
  | some data =>
    have there : (inst, signal) ∈ registered := by
      rcases known with known | nothing
      · exact known
      · obtain ⟨name, member⟩ := (agrees.instances inst).mp (by rw [held]; rfl)
        exact absurd member (nothing name)
    have same : ∀ name, signalOf registry inst name = data.signals.lookup name := by
      intro name
      simp [signalOf, held]
    obtain ⟨record, found⟩ := isSome_iff_exists.mp ((agrees.signals inst signal).mpr there)
    rw [same] at found
    have removed := HashTable.size_remove found
    have counted := agrees.signalCount inst data held
    have left : data.signalCount - 1 = (data.signals.remove signal).size := by omega
    have kept : ∀ other name, (other, name) ∈ registered.filter (· ≠ (inst, signal)) ↔
        (other, name) ∈ registered ∧ ¬(other = inst ∧ name = signal) := by
      intro other name
      simp only [mem_filter, ne_eq, Prod.mk.injEq, decide_not, Bool.not_eq_true',
        decide_eq_false_iff_not]
    have remaining : ∀ name, ((data.signals.remove signal).lookup name).isSome = true ↔
        (inst, name) ∈ registered ∧ name ≠ signal := by
      intro name
      by_cases sameName : name = signal
      · subst sameName
        simp
      · rw [HashTable.lookup_remove_other _ sameName, ← same, agrees.signals]
        simp [sameName]
    by_cases last : data.signalCount - 1 = 0
    · have empty : ∀ name, (inst, name) ∈ registered → name = signal := by
        intro name member
        by_contra different
        have there := (remaining name).mpr ⟨member, different⟩
        rw [HashTable.size_eq_zero.mp (left.symm.trans last)] at there
        cases there
      simp only [if_pos last]
      have otherSignals : ∀ other name, other ≠ inst →
          signalOf { registry with instanceTable := registry.instanceTable.remove inst } other
            name = signalOf registry other name := by
        intro other name different
        simp [signalOf, HashTable.lookup_remove_other _ different]
      refine ⟨?_, ?_, ?_, ?_⟩
      · intro other before lookup
        by_cases sameInst : other = inst
        · subst sameInst
          rw [HashTable.lookup_remove_self] at lookup
          cases lookup
        · rw [HashTable.lookup_remove_other _ sameInst] at lookup
          exact agrees.signalCount other before lookup
      · intro other name before lookup
        by_cases sameInst : other = inst
        · subst sameInst
          simp [signalOf] at lookup
        · rw [otherSignals other name sameInst] at lookup
          exact agrees.handlerCount other name before lookup
      · intro other
        by_cases sameInst : other = inst
        · subst sameInst
          rw [HashTable.lookup_remove_self]
          refine iff_of_false (fun impossible => by cases impossible) ?_
          rintro ⟨name, member⟩
          obtain ⟨listed, different⟩ := (kept other name).mp member
          exact different ⟨rfl, empty name listed⟩
        · rw [HashTable.lookup_remove_other _ sameInst, agrees.instances]
          simp [sameInst]
      · intro other name
        rw [kept]
        by_cases sameInst : other = inst
        · subst sameInst
          have gone : signalOf
              { registry with instanceTable := registry.instanceTable.remove other } other
                name = none := by
            simp [signalOf]
          rw [gone]
          exact iff_of_false (fun impossible => by cases impossible)
            (fun both => both.2 ⟨rfl, empty name both.1⟩)
        · rw [otherSignals other name sameInst, agrees.signals]
          simp [sameInst]
    · simp only [if_neg last]
      refine ⟨?_, ?_, ?_, ?_⟩
      · intro other before lookup
        by_cases sameInst : other = inst
        · subst sameInst
          rw [HashTable.lookup_insert_self, Option.some.injEq] at lookup
          subst lookup
          exact left
        · rw [HashTable.lookup_insert_other _ sameInst] at lookup
          exact agrees.signalCount other before lookup
      · intro other name before lookup
        rw [signalOf_insert] at lookup
        split at lookup
        · by_cases sameName : name = signal
          · subst sameName
            rw [HashTable.lookup_remove_self] at lookup
            cases lookup
          · rw [HashTable.lookup_remove_other _ sameName, ← same] at lookup
            exact agrees.handlerCount inst name before lookup
        · exact agrees.handlerCount other name before lookup
      · intro other
        by_cases sameInst : other = inst
        · subst sameInst
          rw [HashTable.lookup_insert_self]
          refine iff_of_true rfl ?_
          by_contra nothing
          apply last
          rw [left, HashTable.size_eq_zero]
          intro name
          rw [← not_isSome_iff_eq_none, remaining]
          intro both
          exact nothing ⟨name, (kept other name).mpr ⟨both.1, fun equal => both.2 equal.2⟩⟩
        · rw [HashTable.lookup_insert_other _ sameInst, agrees.instances]
          simp [sameInst]
      · intro other name
        rw [signalOf_insert, kept]
        by_cases sameInst : other = inst
        · subst sameInst
          rw [if_pos rfl, remaining]
          simp
        · rw [if_neg sameInst, agrees.signals]
          simp [sameInst]

/-- While signals are registered once and only registered signals are
unregistered, the counters and the tables agree after every call. -/
theorem registry_agrees {calls done : List Call}
    (admitted : PartialRun.Admitted step admits (purpleSignalsInit, []) calls)
    (initial : done <+: calls) :
    ∃ last, PartialRun.run step (purpleSignalsInit, []) done = some last ∧
      Agrees last.1 last.2 := by
  refine PartialRun.reached (fun state => Agrees state.1 state.2) ?_ agrees_init admitted initial
  intro state call agrees admitted
  refine ⟨_, rfl, ?_⟩
  cases call with
  | register inst signal => exact agrees_register agrees inst signal admitted
  | unregister inst signal => exact agrees_unregister agrees inst signal admitted
  | mutate mutation => exact agrees_mutate agrees mutation

theorem registry_agrees_two :
    ∃ last, PartialRun.run step (purpleSignalsInit, [])
        [.register 1 [97], .register 1 [98], .unregister 1 [97]] = some last ∧
      Agrees last.1 last.2 := by
  refine @registry_agrees [.register 1 [97], .register 1 [98], .unregister 1 [97]] _ ?_
    (prefix_refl _)
  refine ⟨not_mem_nil, fun next stepped => ?_⟩
  cases stepped
  refine ⟨by simp [admits, note], fun next stepped => ?_⟩
  cases stepped
  refine ⟨Or.inl (by simp [note]), fun next stepped => ?_⟩
  trivial

/-- The second registration frees the first signal, and both are counted. -/
theorem counters_differ :
    ¬ ∀ calls last, PartialRun.run step (purpleSignalsInit, []) calls = some last →
      Agrees last.1 last.2 := by
  intro claim
  have agrees := claim [.register 1 [97], .register 1 [97]] _ rfl
  have counted := agrees.signalCount 1 _ rfl
  revert counted
  decide

end Purple.Signals
