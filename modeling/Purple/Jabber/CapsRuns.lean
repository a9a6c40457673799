/-
Every lookup of entity capabilities to its end.

The callback of a lookup is called once, unless one of its ext requests failed
after all; then it is called only for a refused client request, as the code says
itself.  Nothing is used after it is released.
-/

import Purple.Jabber.CapsLookups

namespace Purple.Jabber.Caps

open List CString PartialRun

variable {world next : World} {lookup other : Nat} {user : UserData} {key : JabberCapsTuple}

def Request.isClient : Request → Bool
  | .client _ => true
  | .ext _ _ => false

def mine (world : World) (lookup : Nat) : List Request :=
  world.pending.filter (·.lookup = lookup)

def heard (world : World) (lookup : Nat) : List (Request × Option Query) :=
  world.answered.filter (·.1.lookup = lookup)

def clientsIn (requests : List Request) : Nat := requests.countP (·.isClient)

def extsIn (requests : List Request) : Nat := requests.countP (!·.isClient)

def extsFailed (answers : List (Request × Option Query)) : Nat :=
  answers.countP fun answer => !answer.1.isClient && answer.2.isNone

def clientAnswer (answers : List (Request × Option Query)) : Option (Option Query) :=
  (answers.find? (·.1.isClient)).map (·.2)

/-- An error, no query, or a query whose hash is not the one asked for. -/
def Refused (key : JabberCapsTuple) : Option Query → Prop
  | none => True
  | some query => ∃ hash, key.hash = some hash ∧ query.calculated hash ≠ some key.ver

def ClientRefused (key : JabberCapsTuple) (answers : List (Request × Option Query)) : Prop :=
  ∃ outcome, clientAnswer answers = some outcome ∧ Refused key outcome

inductive Answer (world : World) (lookup : Nat) (key : JabberCapsTuple) : Prop
  | refused (refused : ClientRefused key (heard world lookup)) (calls : told world lookup = [none])
  | failed (accepted : ¬ ClientRefused key (heard world lookup))
      (failed : 0 < extsFailed (heard world lookup)) (calls : told world lookup = [])
  | complete (accepted : ¬ ClientRefused key (heard world lookup))
      (answered : extsFailed (heard world lookup) = 0) (info : Nat)
      (listed : find key world.capstable = some info) (calls : told world lookup = [some info])

inductive Stage (world : World) (lookup : Nat) (key : JabberCapsTuple) (user : UserData) : Prop
  | waiting (clients : clientsIn (mine world lookup) = 1) (uninformed : user.info = none)
      (unanswered : clientAnswer (heard world lookup) = none) (calls : told world lookup = [])
      (node : user.node = some key.node) (ver : user.ver = some key.ver)
      (hash : user.hash = key.hash)
      (held : 0 < user.extOutstanding → user.hash = none ∧ user.nodeExts ≠ none)
  | known (clients : clientsIn (mine world lookup) = 0) (info : Nat)
      (informed : user.info = some info) (listed : find key world.capstable = some info)
      (accepted : ¬ ClientRefused key (heard world lookup)) (calls : told world lookup = [])
      (outstanding : 0 < user.extOutstanding)
      (node : ∀ client : JabberCapsClientInfo, world.infos[info]? = some client →
        client.exts = none → user.node = some key.node)
  | refused (clients : clientsIn (mine world lookup) = 0) (uninformed : user.info = none)
      (refused : ClientRefused key (heard world lookup)) (calls : told world lookup = [none])
      (node : user.node = some key.node)

structure Live (world : World) (lookup : Nat) (key : JabberCapsTuple) (user : UserData) : Prop where
  refs : user.ref = (mine world lookup).length
  positive : 0 < user.ref
  outstanding : user.extOutstanding =
    extsIn (mine world lookup) + extsFailed (heard world lookup)
  names : ∀ name, .ext lookup name ∈ mine world lookup → name ∈ user.exts
  stage : Stage world lookup key user

def Faithful (world : World) (lookup : Nat) (key : JabberCapsTuple) : Prop :=
  match world.user lookup with
  | some user => Live world lookup key user
  | none => mine world lookup = [] ∧ Answer world lookup key

structure Apart (lookup : Nat) (world next : World) : Prop where
  user : next.user lookup = world.user lookup
  mine : mine next lookup = mine world lookup
  heard : heard next lookup = heard world lookup
  told : told next lookup = told world lookup
  grows : Grows world next

theorem Answer.apart (answer : Answer world lookup key) (apart : Apart lookup world next) :
    Answer next lookup key := by
  cases answer with
  | refused refused calls =>
    exact .refused (apart.heard.symm ▸ refused) (apart.told.trans calls)
  | failed accepted failed calls =>
    exact .failed (apart.heard.symm ▸ accepted) (apart.heard.symm ▸ failed)
      (apart.told.trans calls)
  | complete accepted answered info listed calls =>
    exact .complete (apart.heard.symm ▸ accepted) (apart.heard.symm ▸ answered) info
      (apart.grows.entries key info listed) (apart.told.trans calls)

theorem Live.apart (live : Live world lookup key user) (listed : Listed world)
    (apart : Apart lookup world next) : Live next lookup key user where
  refs := by
    rw [apart.mine]
    exact live.refs
  positive := live.positive
  outstanding := by
    rw [apart.mine, apart.heard]
    exact live.outstanding
  names := by
    rw [apart.mine]
    exact live.names
  stage := by
    cases live.stage with
    | waiting clients uninformed unanswered calls node ver hash held =>
      exact .waiting (apart.mine.symm ▸ clients) uninformed (apart.heard.symm ▸ unanswered)
        (apart.told.trans calls) node ver hash held
    | refused clients uninformed refused calls node =>
      exact .refused (apart.mine.symm ▸ clients) uninformed (apart.heard.symm ▸ refused)
        (apart.told.trans calls) node
    | known clients info informed found accepted calls outstanding node =>
      refine .known (apart.mine.symm ▸ clients) info informed
        (apart.grows.entries key info found) (apart.heard.symm ▸ accepted)
        (apart.told.trans calls) outstanding ?_
      intro later there bare
      obtain ⟨client, slot, _⟩ := listed key info found
      obtain ⟨after, same, _, kept⟩ := apart.grows.infos info client slot
      rw [there] at same
      cases same
      exact node client slot (Classical.byContradiction fun has => kept has bare)

theorem Faithful.apart (faithful : Faithful world lookup key) (listed : Listed world)
    (apart : Apart lookup world next) : Faithful next lookup key := by
  unfold Faithful at faithful ⊢
  rw [apart.user]
  cases found : world.user lookup with
  | some user =>
    rw [found] at faithful
    exact Live.apart faithful listed apart
  | none =>
    rw [found] at faithful
    exact ⟨apart.mine.trans faithful.1, faithful.2.apart apart⟩

theorem told_of_calls {calls : List Call} (whole : next.calls = world.calls ++ calls) :
    told next lookup = told world lookup ++ (calls.filter (·.lookup = lookup)).map (·.info) := by
  rw [told, whole, filter_append, map_append]
  rfl

theorem Changed.told {new : List (Option Nat)} (changed : Changed lookup new world next) :
    told next lookup = told world lookup ++ new := by
  obtain ⟨calls, whole, own, infos⟩ := changed.calls
  rw [told_of_calls whole, filter_eq_self.mpr fun call member => decide_eq_true (own call member),
    infos]

theorem Changed.apart {new : List (Option Nat)} (changed : Changed lookup new world next)
    (different : other ≠ lookup) : Apart other world next where
  user := changed.others other different
  mine := by rw [mine, changed.pending]; rfl
  heard := by rw [heard, changed.answered]; rfl
  told := by
    obtain ⟨calls, whole, own, _⟩ := changed.calls
    rw [told_of_calls whole, filter_eq_nil_iff.mpr, map_nil, append_nil]
    intro call member
    rw [decide_eq_true_iff, own call member]
    exact Ne.symm different
  grows := changed.grows

theorem Changed.mine {new : List (Option Nat)} (changed : Changed lookup new world next) :
    mine next lookup = mine world lookup := by
  rw [Caps.mine, changed.pending]
  rfl

theorem Changed.heard {new : List (Option Nat)} (changed : Changed lookup new world next) :
    heard next lookup = heard world lookup := by
  rw [Caps.heard, changed.answered]
  rfl

end Purple.Jabber.Caps
