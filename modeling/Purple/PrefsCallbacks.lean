/-
The callbacks on preferences, from prefs.c, without operations of a user interface.

A preference is its names from the last one to the first below the root, so its
parent is the tail.  A list link and the record in it are allocated together and
freed together; one number stands for both and is never used a second time.
-/

import Mathlib.Data.List.Nodup
import Purple.PartialRun

namespace Purple.PrefsCallbacks

abbrev Pref := List (List UInt8)

/-- `PurplePrefCallbackData`; what the function does is the steps of a run. -/
structure CallbackData where
  link : Nat
  id : UInt32
  handle : Nat
deriving DecidableEq

abbrev Callbacks := Pref → List CallbackData

def links (callbacks : Callbacks) (pref : Pref) : List Nat :=
  (callbacks pref).map CallbackData.link

/-- The callbacks on a preference and on those above it, in this order. -/
def chainLinks (callbacks : Callbacks) : Pref → List Nat
  | [] => links callbacks []
  | name :: parent => links callbacks (name :: parent) ++ chainLinks callbacks parent

/-- `disco_callback_helper` over the preferences in the order it visits them. -/
def discoCallbackHelper (callbacks : Callbacks) (callbackId : UInt32) : List Pref → Callbacks
  | [] => callbacks
  | pref :: rest =>
    if (callbacks pref).any fun cb => cb.id = callbackId then
      Function.update callbacks pref ((callbacks pref).eraseP fun cb => cb.id = callbackId)
    else discoCallbackHelper callbacks callbackId rest

def discoHandleRounds (handle : Nat) : Nat → List CallbackData → List CallbackData
  | 0, cbs => cbs
  | rounds + 1, cbs =>
    if cbs.any fun cb => cb.handle = handle then
      discoHandleRounds handle rounds (cbs.eraseP fun cb => cb.handle = handle)
    else cbs

def discoCallbackHelperHandle (handle : Nat) (callbacks : Callbacks) (pref : Pref) : Callbacks :=
  Function.update callbacks pref
    (discoHandleRounds handle (callbacks pref).length (callbacks pref))

/-- A run of `do_callbacks` that has called a callback and waits for it.  The
callbacks it has called and those there were when it started are history. -/
structure Activation where
  pref : Pref
  cbPref : Pref
  cbs : Nat
  calls : List Nat
  before : List Nat

/-- A run of `do_callbacks` that is over, with the callbacks there were then. -/
structure Ended where
  calls : List Nat
  before : List Nat
  after : List Nat

/-- The last one that was started is the first one running. -/
structure State where
  callbacks : Callbacks
  cbId : UInt32
  nextLink : Nat
  running : List Activation
  ended : List Ended

def initial : State :=
  { callbacks := fun _ => [], cbId := 0, nextLink := 0, running := [], ended := [] }

def firstFrom (callbacks : Callbacks) : Pref → Option (Pref × Nat)
  | [] => (callbacks []).head?.map fun cb => ([], cb.link)
  | name :: parent =>
    match callbacks (name :: parent) with
    | [] => firstFrom callbacks parent
    | cb :: _ => some (name :: parent, cb.link)

/-- The list behind a link; a link that is not in the list was freed. -/
def behindLink (link : Nat) : List CallbackData → Option (List CallbackData)
  | [] => none
  | cb :: rest => if cb.link = link then some rest else behindLink link rest

/-- What the loops go on with: `cbs->next`, or the callbacks of the parents. -/
def nextCallback (callbacks : Callbacks) (cbPref : Pref) (cbs : Nat) :
    Option (Option (Pref × Nat)) :=
  (behindLink cbs (callbacks cbPref)).map fun behind =>
    match behind, cbPref with
    | cb :: _, _ => some (cbPref, cb.link)
    | [], [] => none
    | [], _ :: parent => firstFrom callbacks parent

def doCallbacks (st : State) (pref : Pref) : State :=
  let before := chainLinks st.callbacks pref
  match firstFrom st.callbacks pref with
  | none => { st with ended := { calls := [], before, after := before } :: st.ended }
  | some (cbPref, cbs) =>
    { st with running := { pref, cbPref, cbs, calls := [cbs], before } :: st.running }

def returned (st : State) : Option State :=
  match st.running with
  | [] => some st
  | top :: outer =>
    (nextCallback st.callbacks top.cbPref top.cbs).map fun next =>
      match next with
      | some (cbPref, cbs) =>
        { st with running := { top with cbPref, cbs, calls := top.calls ++ [cbs] } :: outer }
      | none =>
        { st with
          running := outer
          ended :=
            { calls := top.calls, before := top.before
              after := chainLinks st.callbacks top.pref } :: st.ended }

inductive Step where
  | connect (pref : Pref) (handle : Nat)
  | disconnect (callbackId : UInt32)
  | disconnectByHandle (handle : Nat)
  | set (pref : Pref)
  | ret
deriving DecidableEq

def Step.isSet : Step → Bool
  | .set _ => true
  | _ => false

def Step.isConnect : Step → Bool
  | .connect _ _ => true
  | _ => false

/-- Steps of callbacks, and of the program while none is called, where `tree` is
the preferences in the order in which they are visited.  Setting a preference to
its value does nothing, so `set` changes the value. -/
def perform (tree : List Pref) (st : State) : Step → Option State
  | .connect pref handle =>
    if pref ∈ tree then
      some
        { st with
          callbacks := Function.update st.callbacks pref
            (st.callbacks pref ++ [{ link := st.nextLink, id := st.cbId + 1, handle }])
          cbId := st.cbId + 1
          nextLink := st.nextLink + 1 }
    else some st
  | .disconnect callbackId =>
    some { st with callbacks := discoCallbackHelper st.callbacks callbackId tree }
  | .disconnectByHandle handle =>
    some { st with callbacks := tree.foldl (discoCallbackHelperHandle handle) st.callbacks }
  | .set pref => if pref ∈ tree then some (doCallbacks st pref) else some st
  | .ret => returned st

def NotCalled (st : State) (property : CallbackData → Prop) : Prop :=
  ∀ activation ∈ st.running, ∀ cb ∈ st.callbacks activation.cbPref,
    cb.link = activation.cbs → ¬ property cb

def Spares (st : State) : Step → Prop
  | .disconnect callbackId => NotCalled st fun cb => cb.id = callbackId
  | .disconnectByHandle handle => NotCalled st fun cb => cb.handle = handle
  | _ => True

def among (list others : List Nat) : List Nat := list.filter fun link => decide (link ∈ others)

/-- Each callback that was there at the start and at the end was called once, in
the order of the lists. -/
structure Ended.Right (ended : Ended) : Prop where
  distinct : ended.before.Nodup
  called : among (among ended.calls ended.before) ended.after = among ended.before ended.after

/-- While preferences are not set, as many callbacks return as there were and were
connected, at most. -/
def Terminates (tree : List Pref) (st : State) : Prop :=
  ∀ (pref : Pref) (steps : List Step) (last : State),
    (∀ step ∈ steps, step.isSet = false) →
    PartialRun.Admitted (perform tree) Spares (doCallbacks st pref) steps →
    PartialRun.run (perform tree) (doCallbacks st pref) steps = some last →
    st.running.length < last.running.length →
    steps.count .ret < (chainLinks st.callbacks pref).length + steps.countP Step.isConnect

structure CalledRight (tree : List Pref) (st : State) : Prop where
  live : ∀ activation ∈ st.running, activation.cbs ∈ links st.callbacks activation.cbPref
  once : ∀ ended ∈ st.ended, ended.Right
  terminates : Terminates tree st

end Purple.PrefsCallbacks
