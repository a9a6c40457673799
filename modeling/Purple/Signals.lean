/-
The signal registry of signals.c.

`NULL` is the pointer zero.  A list link and the handler record in it are
allocated together and freed together, so one address stands for both, and an
address is never used a second time.  Marshallers and values are only handed
on, so they are left out.  A count goes down only from one or more.
-/

import Purple.HashTable

namespace Purple.Signals

abbrev Pointer := Nat

abbrev SignalName := List UInt8

structure HandlerData where
  address : Nat
  id : Nat
  cb : Pointer
  handle : Pointer
  data : Pointer
  useVargs : Bool
  priority : Int32
deriving DecidableEq

structure SignalData where
  id : Nat
  handlers : List HandlerData
  handlerCount : Nat
  nextHandlerId : Nat

structure InstanceData where
  signals : HashTable SignalName SignalData
  signalCount : Nat
  nextSignalId : Nat

structure Registry where
  instanceTable : HashTable Pointer InstanceData
  nextAddress : Nat

def purpleSignalsInit : Registry := { instanceTable := .empty, nextAddress := 0 }

def newInstanceData : InstanceData := { signals := .empty, signalCount := 0, nextSignalId := 1 }

def newSignalData (id : Nat) : SignalData :=
  { id, handlers := [], handlerCount := 0, nextHandlerId := 1 }

def purpleSignalRegister (registry : Registry) (inst : Pointer) (signal : SignalName) :
    Registry :=
  if inst = 0 then registry
  else
    let data := (registry.instanceTable.lookup inst).getD newInstanceData
    let registered :=
      { data with
        signals := data.signals.insert signal (newSignalData data.nextSignalId)
        nextSignalId := data.nextSignalId + 1
        signalCount := data.signalCount + 1 }
    { registry with instanceTable := registry.instanceTable.insert inst registered }

def purpleSignalUnregister (registry : Registry) (inst : Pointer) (signal : SignalName) :
    Registry :=
  match registry.instanceTable.lookup inst with
  | none => registry
  | some data =>
    let unregistered :=
      { data with signals := data.signals.remove signal, signalCount := data.signalCount - 1 }
    if unregistered.signalCount = 0 then
      { registry with instanceTable := registry.instanceTable.remove inst }
    else { registry with instanceTable := registry.instanceTable.insert inst unregistered }

def handlerPriority (left right : HandlerData) : Int :=
  if left.priority > right.priority then 1
  else if left.priority < right.priority then -1
  else 0

/-- `g_list_insert_sorted`: before the first item that does not come earlier. -/
def gListInsertSorted {α : Type} (compare : α → α → Int) (item : α) : List α → List α
  | [] => [item]
  | head :: rest =>
    if compare item head > 0 then head :: gListInsertSorted compare item rest
    else item :: head :: rest

def connectHandler (handler : HandlerData) (data : SignalData) : SignalData :=
  { data with
    handlers := gListInsertSorted handlerPriority { handler with id := data.nextHandlerId }
      data.handlers
    handlerCount := data.handlerCount + 1
    nextHandlerId := data.nextHandlerId + 1 }

def updateSignal (registry : Registry) (inst : Pointer) (signal : SignalName)
    (change : SignalData → SignalData) : Registry :=
  match registry.instanceTable.lookup inst with
  | none => registry
  | some data =>
    match data.signals.lookup signal with
    | none => registry
    | some signalData =>
      let written := { data with signals := data.signals.insert signal (change signalData) }
      { registry with instanceTable := registry.instanceTable.insert inst written }

def signalConnectCommon (registry : Registry) (inst : Pointer) (signal : SignalName)
    (handle func data : Pointer) (priority : Int32) (useVargs : Bool) : Registry :=
  if inst = 0 ∨ handle = 0 ∨ func = 0 then registry
  else
    let handler : HandlerData :=
      { address := registry.nextAddress, id := 0, cb := func, handle, data, useVargs, priority }
    updateSignal { registry with nextAddress := registry.nextAddress + 1 } inst signal
      (connectHandler handler)

def isHandler (handle func : Pointer) (handler : HandlerData) : Bool :=
  handler.handle == handle && handler.cb == func

/-- The loop of `purple_signal_disconnect`, which stops at the first handler found. -/
def disconnectFirst (handle func : Pointer) (data : SignalData) : SignalData :=
  if data.handlers.any (isHandler handle func) then
    { data with
      handlers := data.handlers.eraseP (isHandler handle func)
      handlerCount := data.handlerCount - 1 }
  else data

def purpleSignalDisconnect (registry : Registry) (inst : Pointer) (signal : SignalName)
    (handle func : Pointer) : Registry :=
  if inst = 0 ∨ handle = 0 ∨ func = 0 then registry
  else updateSignal registry inst signal (disconnectFirst handle func)

/-- The loop of `disconnect_handle_from_signals`; the rest of the list is read
before a link is freed. -/
def disconnectHandleLoop (handle : Pointer) : List HandlerData → Nat → List HandlerData × Nat
  | [], count => ([], count)
  | handler :: rest, count =>
    if handler.handle = handle then disconnectHandleLoop handle rest (count - 1)
    else
      let kept := disconnectHandleLoop handle rest count
      (handler :: kept.1, kept.2)

def disconnectHandleFromSignals (handle : Pointer) (_signal : SignalName) (data : SignalData) :
    SignalData :=
  let kept := disconnectHandleLoop handle data.handlers data.handlerCount
  { data with handlers := kept.1, handlerCount := kept.2 }

def disconnectHandleFromInstance (handle : Pointer) (_instance : Pointer) (data : InstanceData) :
    InstanceData :=
  { data with signals := data.signals.foreach (disconnectHandleFromSignals handle) }

def purpleSignalsDisconnectByHandle (registry : Registry) (handle : Pointer) : Registry :=
  if handle = 0 then registry
  else
    { registry with
      instanceTable := registry.instanceTable.foreach (disconnectHandleFromInstance handle) }

/-- The calls a handler may make while a signal is emitted. -/
inductive Mutation where
  | connect (inst : Pointer) (signal : SignalName) (handle func data : Pointer)
      (priority : Int32) (useVargs : Bool)
  | disconnect (inst : Pointer) (signal : SignalName) (handle func : Pointer)
  | disconnectByHandle (handle : Pointer)

inductive Call where
  | register (inst : Pointer) (signal : SignalName)
  | unregister (inst : Pointer) (signal : SignalName)
  | mutate (mutation : Mutation)

def mutate (registry : Registry) : Mutation → Registry
  | .connect inst signal handle func data priority useVargs =>
    signalConnectCommon registry inst signal handle func data priority useVargs
  | .disconnect inst signal handle func => purpleSignalDisconnect registry inst signal handle func
  | .disconnectByHandle handle => purpleSignalsDisconnectByHandle registry handle

def apply (registry : Registry) : Call → Registry
  | .register inst signal => purpleSignalRegister registry inst signal
  | .unregister inst signal => purpleSignalUnregister registry inst signal
  | .mutate mutation => mutate registry mutation

def signalOf (registry : Registry) (inst : Pointer) (signal : SignalName) : Option SignalData :=
  (registry.instanceTable.lookup inst).bind fun data => data.signals.lookup signal

theorem signalOf_insert (registry : Registry) (data : InstanceData) (inst other : Pointer)
    (signal : SignalName) :
    signalOf { registry with instanceTable := registry.instanceTable.insert inst data } other
        signal =
      if other = inst then data.signals.lookup signal else signalOf registry other signal := by
  unfold signalOf
  by_cases same : other = inst
  · subst same
    simp
  · simp [HashTable.lookup_insert_other _ same, same]

/-- The next address is `fresh` before and `next` after. -/
inductive HandlerChange (fresh next : Nat) : SignalData → SignalData → Prop where
  | same (data : SignalData) : HandlerChange fresh next data data
  | connected (handler : HandlerData) (new : handler.address = fresh) (used : fresh < next)
      (data : SignalData) : HandlerChange fresh next data (connectHandler handler data)
  | disconnected (handle func : Pointer) (data : SignalData) :
      HandlerChange fresh next data (disconnectFirst handle func data)
  | handleGone (handle : Pointer) (signal : SignalName) (data : SignalData) :
      HandlerChange fresh next data (disconnectHandleFromSignals handle signal data)

theorem updateSignal_instance (registry : Registry) (inst other : Pointer) (signal : SignalName)
    (change : SignalData → SignalData) :
    ((updateSignal registry inst signal change).instanceTable.lookup other).map
        (fun data => (data.signalCount, data.signals.size)) =
      (registry.instanceTable.lookup other).map
        (fun data => (data.signalCount, data.signals.size)) := by
  unfold updateSignal
  cases instAt : registry.instanceTable.lookup inst with
  | none => rfl
  | some data =>
    cases signalAt : data.signals.lookup signal with
    | none => simp only [signalAt]
    | some signalData =>
      simp only [signalAt]
      by_cases same : other = inst
      · subst same
        simp [instAt, HashTable.size_insert_old signalAt]
      · rw [HashTable.lookup_insert_other _ same]

theorem updateSignal_self (registry : Registry) (inst : Pointer) (signal : SignalName)
    (change : SignalData → SignalData) :
    signalOf (updateSignal registry inst signal change) inst signal =
      (signalOf registry inst signal).map change := by
  unfold updateSignal signalOf
  cases instAt : registry.instanceTable.lookup inst with
  | none => simp [instAt]
  | some data =>
    cases signalAt : data.signals.lookup signal with
    | none => simp [instAt, signalAt]
    | some signalData => simp [signalAt]

theorem updateSignal_other (registry : Registry) {inst other : Pointer}
    {signal name : SignalName} (different : (other, name) ≠ (inst, signal))
    (change : SignalData → SignalData) :
    signalOf (updateSignal registry inst signal change) other name =
      signalOf registry other name := by
  unfold updateSignal signalOf
  cases instAt : registry.instanceTable.lookup inst with
  | none => rfl
  | some data =>
    cases signalAt : data.signals.lookup signal with
    | none => simp only [signalAt]
    | some signalData =>
      simp only [signalAt]
      by_cases same : other = inst
      · subst same
        have differentName : name ≠ signal := fun equal => different (by rw [equal])
        simp [instAt, HashTable.lookup_insert_other _ differentName]
      · rw [HashTable.lookup_insert_other _ same]

theorem updateSignal_nextAddress (registry : Registry) (inst : Pointer) (signal : SignalName)
    (change : SignalData → SignalData) :
    (updateSignal registry inst signal change).nextAddress = registry.nextAddress := by
  unfold updateSignal
  split
  · rfl
  · split <;> rfl

theorem mutate_nextAddress (registry : Registry) (mutation : Mutation) :
    registry.nextAddress ≤ (mutate registry mutation).nextAddress := by
  cases mutation with
  | connect inst signal handle func data priority useVargs =>
    simp only [mutate, signalConnectCommon]
    split
    · exact Nat.le_refl _
    · rw [updateSignal_nextAddress]
      exact Nat.le_succ _
  | disconnect inst signal handle func =>
    simp only [mutate, purpleSignalDisconnect]
    split
    · exact Nat.le_refl _
    · exact Nat.le_of_eq (updateSignal_nextAddress _ _ _ _).symm
  | disconnectByHandle handle =>
    simp only [mutate, purpleSignalsDisconnectByHandle]
    split <;> exact Nat.le_refl _

theorem mutate_instance (registry : Registry) (mutation : Mutation) (other : Pointer) :
    ((mutate registry mutation).instanceTable.lookup other).map
        (fun data => (data.signalCount, data.signals.size)) =
      (registry.instanceTable.lookup other).map
        (fun data => (data.signalCount, data.signals.size)) := by
  cases mutation with
  | connect inst signal handle func data priority useVargs =>
    simp only [mutate, signalConnectCommon]
    split
    · rfl
    · rw [updateSignal_instance]
  | disconnect inst signal handle func =>
    simp only [mutate, purpleSignalDisconnect]
    split
    · rfl
    · rw [updateSignal_instance]
  | disconnectByHandle handle =>
    simp only [mutate, purpleSignalsDisconnectByHandle]
    split
    · rfl
    · rw [HashTable.lookup_foreach, Option.map_map]
      congr 1
      funext data
      simp [disconnectHandleFromInstance]

def SignalChange (fresh next : Nat) : Option SignalData → Option SignalData → Prop
  | none, none => True
  | some before, some after => HandlerChange fresh next before after
  | _, _ => False

theorem SignalChange.refl (fresh next : Nat) (data : Option SignalData) :
    SignalChange fresh next data data := by
  cases data with
  | none => trivial
  | some data => exact HandlerChange.same data

private theorem signalChange_update (registry : Registry) (inst other : Pointer)
    (signal name : SignalName) (change : SignalData → SignalData) {fresh next : Nat}
    (changed : ∀ data, HandlerChange fresh next data (change data)) :
    SignalChange fresh next (signalOf registry other name)
      (signalOf (updateSignal registry inst signal change) other name) := by
  by_cases same : (other, name) = (inst, signal)
  · cases same
    rw [updateSignal_self]
    cases signalOf registry inst signal with
    | none => trivial
    | some data => exact changed data
  · rw [updateSignal_other registry same]
    exact SignalChange.refl _ _ _

theorem mutate_signalOf (registry : Registry) (mutation : Mutation) (other : Pointer)
    (name : SignalName) :
    SignalChange registry.nextAddress (mutate registry mutation).nextAddress
      (signalOf registry other name) (signalOf (mutate registry mutation) other name) := by
  cases mutation with
  | connect inst signal handle func data priority useVargs =>
    simp only [mutate, signalConnectCommon]
    split
    · exact SignalChange.refl _ _ _
    · rw [updateSignal_nextAddress]
      exact signalChange_update { registry with nextAddress := registry.nextAddress + 1 }
        inst other signal name _ (HandlerChange.connected _ rfl (Nat.lt_succ_self _))
  | disconnect inst signal handle func =>
    simp only [mutate, purpleSignalDisconnect]
    split
    · exact SignalChange.refl _ _ _
    · exact signalChange_update registry inst other signal name _
        (HandlerChange.disconnected handle func)
  | disconnectByHandle handle =>
    simp only [mutate, purpleSignalsDisconnectByHandle]
    split
    · exact SignalChange.refl _ _ _
    · simp only [signalOf, HashTable.lookup_foreach]
      cases registry.instanceTable.lookup other with
      | none => trivial
      | some data =>
        simp only [Option.map_some, Option.bind_some, disconnectHandleFromInstance,
          HashTable.lookup_foreach]
        cases data.signals.lookup name with
        | none => trivial
        | some signalData => exact HandlerChange.handleGone handle name signalData

end Purple.Signals
