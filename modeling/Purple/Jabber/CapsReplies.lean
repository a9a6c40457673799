/-
What a reply does to its lookup.

The reply is first taken from the requests; the callback then brings the lookup
to its next stage, or to its end where it was the last request.
-/

import Purple.Jabber.CapsRuns

namespace Purple.Jabber.Caps

open List Option CString PartialRun

variable {world next : World} {lookup other : Nat} {user : UserData} {key : JabberCapsTuple}
  {request : Request} {outcome : Option Query}

def taken (world : World) (request : Request) (outcome : Option Query) : World :=
  { world with
    pending := world.pending.erase request
    answered := world.answered ++ [(request, outcome)] }

theorem mine_taken (world : World) (request : Request) (outcome : Option Query) :
    mine (taken world request outcome) request.lookup =
      (mine world request.lookup).erase request := erase_filter.symm

theorem heard_taken (world : World) (request : Request) (outcome : Option Query) :
    heard (taken world request outcome) request.lookup =
      heard world request.lookup ++ [(request, outcome)] := by
  change (world.answered ++ [(request, outcome)]).filter _ = _
  rw [filter_append, filter_singleton, decide_eq_true rfl]
  rfl

theorem taken_apart (different : other ≠ request.lookup) :
    Apart other world (taken world request outcome) where
  user := rfl
  mine := by
    change (world.pending.erase request).filter _ = _
    rw [← erase_filter, erase_of_not_mem]
    · rfl
    · intro member
      exact different (of_decide_eq_true (mem_filter.mp member).2).symm
  heard := by
    change (world.answered ++ [(request, outcome)]).filter _ = _
    rw [filter_append, filter_singleton, decide_eq_false (Ne.symm different)]
    exact append_nil _
  told := rfl
  grows := Grows.of_same rfl rfl

theorem mine_of_pending (member : request ∈ world.pending) : request ∈ mine world request.lookup :=
  mem_filter.mpr ⟨member, decide_eq_true rfl⟩

theorem length_split (requests : List Request) :
    requests.length = clientsIn requests + extsIn requests := by
  rw [length_eq_countP_add_countP (·.isClient), clientsIn, extsIn]
  congr 2
  funext request
  cases request with
  | client lookup => rfl
  | ext lookup name => rfl

theorem clients_erase {requests : List Request} (member : request ∈ requests) :
    clientsIn requests = clientsIn (requests.erase request) + (if request.isClient then 1 else 0) := by
  rw [clientsIn, (perm_cons_erase member).countP_eq, countP_cons]
  rfl

theorem exts_erase {requests : List Request} (member : request ∈ requests) :
    extsIn requests = extsIn (requests.erase request) + (if request.isClient then 0 else 1) := by
  rw [extsIn, (perm_cons_erase member).countP_eq, countP_cons]
  cases request with
  | client lookup => rfl
  | ext lookup name => rfl

theorem extsFailed_append (answers : List (Request × Option Query)) (request : Request)
    (outcome : Option Query) :
    extsFailed (answers ++ [(request, outcome)]) =
      extsFailed answers + (if !request.isClient && outcome.isNone then 1 else 0) := by
  rw [extsFailed, countP_append, countP_singleton]
  rfl

theorem clientAnswer_ext (answers : List (Request × Option Query)) (lookup : Nat) (name : Bytes)
    (outcome : Option Query) :
    clientAnswer (answers ++ [(.ext lookup name, outcome)]) = clientAnswer answers := by
  rw [clientAnswer, find?_append]
  exact congrArg (Option.map _) (or_none)

theorem clientAnswer_client {answers : List (Request × Option Query)}
    (unanswered : clientAnswer answers = none) (lookup : Nat) (outcome : Option Query) :
    clientAnswer (answers ++ [(.client lookup, outcome)]) = some outcome := by
  rw [clientAnswer, find?_append, map_eq_none_iff.mp unanswered]
  rfl

theorem clientRefused_client {answers : List (Request × Option Query)}
    (unanswered : clientAnswer answers = none) (lookup : Nat) (outcome : Option Query) :
    ClientRefused key (answers ++ [(.client lookup, outcome)]) ↔ Refused key outcome := by
  rw [ClientRefused, clientAnswer_client unanswered]
  constructor
  · rintro ⟨given, same, refused⟩
    cases same
    exact refused
  · exact fun refused => ⟨outcome, rfl, refused⟩

theorem clientRefused_ext (answers : List (Request × Option Query)) (lookup : Nat) (name : Bytes)
    (outcome : Option Query) :
    ClientRefused key (answers ++ [(.ext lookup name, outcome)]) ↔ ClientRefused key answers := by
  rw [ClientRefused, clientAnswer_ext]
  rfl

theorem validated_eq (ver : user.ver = some key.ver) (hash : user.hash = key.hash) (query : Query) :
    ∃ valid, validated user query = some valid ∧ (valid = false ↔ Refused key (some query)) := by
  rw [validated, hash]
  cases algorithm : key.hash with
  | none =>
    refine ⟨true, rfl, ?_⟩
    constructor
    · exact fun impossible => nomatch impossible
    · rintro ⟨hash, same, _⟩
      rw [algorithm] at same
      cases same
  | some hash =>
    have refused : Refused key (some query) ↔ query.calculated hash ≠ some key.ver := by
      constructor
      · rintro ⟨other, same, differs⟩
        rw [algorithm] at same
        cases same
        exact differs
      · exact fun differs => ⟨hash, algorithm, differs⟩
    rw [refused]
    cases calculated : query.calculated hash with
    | none =>
      simp only [calculated]
      exact ⟨false, rfl, iff_of_true rfl fun impossible => nomatch impossible⟩
    | some value =>
      refine ⟨value == key.ver, by simp only [calculated, ver, map_some], ?_⟩
      rw [beq_eq_false_iff_ne, ne_eq, ne_eq, Option.some.injEq]

theorem Stage.withRef (stage : Stage world lookup key user) (count : Nat) :
    Stage world lookup key { user with ref := count } := by
  cases stage with
  | waiting clients uninformed unanswered calls node ver hash held =>
    exact .waiting clients uninformed unanswered calls node ver hash held
  | known clients info informed listed accepted calls outstanding node =>
    exact .known clients info informed listed accepted calls outstanding node
  | refused clients uninformed refused calls node =>
    exact .refused clients uninformed refused calls node

theorem Stage.answer (stage : Stage world lookup key user) (empty : mine world lookup = [])
    (outstanding : user.extOutstanding =
      extsIn (mine world lookup) + extsFailed (heard world lookup)) :
    Answer world lookup key := by
  rw [empty] at outstanding
  cases stage with
  | waiting clients =>
    rw [empty] at clients
    cases clients
  | known clients info informed listed accepted calls positive node =>
    refine .failed accepted ?_ calls
    change user.extOutstanding = 0 + _ at outstanding
    omega
  | refused clients uninformed refused calls node => exact .refused refused calls

theorem faithful_of_stage (left : next.user lookup = released user)
    (refs : user.ref = (mine next lookup).length + 1)
    (outstanding : user.extOutstanding = extsIn (mine next lookup) + extsFailed (heard next lookup))
    (names : ∀ name, .ext lookup name ∈ mine next lookup → name ∈ user.exts)
    (stage : Stage next lookup key user) : Faithful next lookup key := by
  unfold Faithful
  rw [left, released]
  by_cases more : 1 < user.ref
  · rw [if_pos more]
    refine ⟨?_, ?_, outstanding, names, stage.withRef _⟩
    · change user.ref - 1 = _
      omega
    · change 0 < user.ref - 1
      omega
  · rw [if_neg more]
    have empty : mine next lookup = [] := eq_nil_of_length_eq_zero (by omega)
    exact ⟨empty, stage.answer empty outstanding⟩

theorem faithful_of_answer (left : next.user lookup = released user) (last : user.ref = 1)
    (empty : mine next lookup = []) (answer : Answer next lookup key) :
    Faithful next lookup key := by
  unfold Faithful
  rw [left, released, if_neg (by omega)]
  exact ⟨empty, answer⟩

/-! ### The client reply -/

theorem putUser_putUser (world : World) (lookup : Nat) (first second : Option UserData) :
    (world.putUser lookup first).putUser lookup second = world.putUser lookup second := by
  rw [World.putUser, World.putUser, set_set]
  rfl

theorem insertInfo_putUser (world : World) (lookup : Nat) (stored : Option UserData)
    (user : UserData) (held : Option Nat) :
    insertInfo (world.putUser lookup stored) user held =
      (insertInfo world user held).map fun (world, after, info) =>
        (world.putUser lookup stored, after, info) := by
  rw [insertInfo, insertInfo]
  cases user.node with
  | none => rfl
  | some node =>
    cases user.ver with
    | none => rfl
    | some ver =>
      simp only [bind_some]
      have table : (world.putUser lookup stored).capstable = world.capstable := rfl
      rw [table]
      cases find (⟨node, ver, user.hash⟩ : JabberCapsTuple) world.capstable with
      | none => rfl
      | some value =>
        simp only [unrefOptional_putUser, Option.map_map]
        rfl

def kept (user : UserData) : UserData :=
  if user.hash = none then { user with nodeExts := none } else user

def moved (user : UserData) : Option Nat := if user.hash = none then user.nodeExts else none

theorem kept_moved (user : UserData) (at' : Nat) :
    one (heldBy (some user) = some at') =
      one (heldBy (some (kept user)) = some at') + (moved user).toList.count at' := by
  rw [kept, moved]
  split
  · rw [count_toList]
    exact (Nat.zero_add _).symm
  · rfl

theorem accepted_changed (found : world.user lookup = some user)
    (node : user.node = some key.node) (ver : user.ver = some key.ver) (hash : user.hash = key.hash)
    (counted : CountedWith world []) (listed : Listed world) :
    ∃ middle after info, insertInfo world (kept user) (moved user) = some (middle, after, info) ∧
      Changed lookup [] world (middle.putUser lookup (some { after with info := some info })) ∧
      (middle.putUser lookup (some { after with info := some info })).user lookup =
        some { after with info := some info } ∧
      CountedWith (middle.putUser lookup (some { after with info := some info })) [] ∧
      Listed middle ∧ find key middle.capstable = some info ∧
      (after = kept user ∨ after = { kept user with node := none, ver := none, hash := none } ∧
        ∃ client, middle.infos[info]? = some client ∧ client.exts = moved user) := by
  let stored := world.putUser lookup (some (kept user))
  have nodeKept : (kept user).node = some key.node := by
    rw [kept]
    split <;> exact node
  have verKept : (kept user).ver = some key.ver := by
    rw [kept]
    split <;> exact ver
  have hashKept : (kept user).hash = key.hash := by
    rw [kept]
    split <;> exact hash
  have storedCounted : CountedWith stored (moved user).toList := by
    refine putUser_counted (user_slot found) _ (fun at' => ?_) counted
    rw [kept_moved user at']
    rfl
  obtain ⟨next, after, info, inserts, changed, same, fine, listedNext, entry, parts⟩ :=
    insertInfo_changed nodeKept verKept hashKept storedCounted listed lookup
  rw [insertInfo_putUser] at inserts
  obtain ⟨⟨middle, afterMiddle, infoMiddle⟩, insertsMiddle, shape⟩ :=
    map_eq_some_iff.mp inserts
  cases shape
  have foundNext : (middle.putUser lookup (some (kept user))).user lookup = some (kept user) := by
    rw [World.user, same]
    exact user_putUser (user_bound found) _
  have heldAfter : after.nodeExts = (kept user).nodeExts := by
    obtain rfl | ⟨rfl, _⟩ := parts
    · rfl
    · rfl
  have informedCounted := @putUser_counted _ lookup _ (user_slot foundNext)
    (some { after with info := some info }) [] [] (fun at' => by
      change one ((kept user).nodeExts = some at') + 0 = one (after.nodeExts = some at') + 0
      rw [heldAfter]) fine
  rw [putUser_putUser] at informedCounted
  have whole := ((changed_putUser world lookup (some (kept user))).trans changed).trans
    (changed_putUser _ lookup (some { after with info := some info }))
  rw [putUser_putUser] at whole
  have bound : lookup < middle.userdata.length := by
    have inside := user_bound foundNext
    change lookup < (middle.userdata.set lookup _).length at inside
    rw [length_set] at inside
    exact inside
  exact ⟨middle, after, info, insertsMiddle, whole, user_putUser bound _, informedCounted,
    listedNext, entry, parts⟩

theorem waiting_of_client (live : Live world lookup key user)
    (member : .client lookup ∈ mine world lookup) :
    user.info = none ∧ clientAnswer (heard world lookup) = none ∧ told world lookup = [] ∧
      clientsIn ((mine world lookup).erase (.client lookup)) = 0 ∧
      user.node = some key.node ∧ user.ver = some key.ver ∧ user.hash = key.hash ∧
      (0 < user.extOutstanding → user.hash = none ∧ user.nodeExts ≠ none) := by
  have fewer := clients_erase member
  change _ = _ + 1 at fewer
  cases live.stage with
  | waiting clients uninformed unanswered calls node ver hash held =>
    exact ⟨uninformed, unanswered, calls, by omega, node, ver, hash, held⟩
  | known clients => omega
  | refused clients => omega

theorem refuse_keeps (live : Live world lookup key user) (found : world.user lookup = some user)
    (member : .client lookup ∈ mine world lookup) (refused : Refused key outcome)
    (counted : CountedWith world []) (listed : Listed world) :
    ∃ next, cbplususerdataUnref ((taken world (.client lookup) outcome).tell lookup none []) lookup =
        some next ∧
      Changed lookup [none] (taken world (.client lookup) outcome) next ∧
      Faithful next lookup key ∧ CountedWith next [] ∧ Listed next := by
  obtain ⟨uninformed, unanswered, calls, clients, node, -, -, -⟩ := waiting_of_client live member
  let reply := taken world (.client lookup) outcome
  obtain ⟨next, unrefs, changed, left, fine, listedNext⟩ :=
    @unref_changed (reply.tell lookup none []) lookup user found live.positive counted listed
  have whole : Changed lookup [none] reply next := (changed_tell reply lookup none []).trans changed
  have mineNext : mine next lookup = (mine world lookup).erase (.client lookup) :=
    whole.mine.trans (mine_taken world (.client lookup) outcome)
  have heardNext : heard next lookup = heard world lookup ++ [(.client lookup, outcome)] :=
    whole.heard.trans (heard_taken world (.client lookup) outcome)
  have toldNext : told next lookup = [none] := by
    rw [whole.told]
    change told world lookup ++ [none] = [none]
    rw [calls, nil_append]
  refine ⟨next, unrefs, whole, faithful_of_stage left ?_ ?_ ?_ ?_, fine, listedNext⟩
  · have fewer := length_erase_of_mem member
    have positive := length_pos_of_mem member
    rw [mineNext, live.refs]
    omega
  · rw [mineNext, heardNext, extsFailed_append, live.outstanding, exts_erase member]
    rfl
  · rw [mineNext]
    exact fun name there => live.names name (mem_of_mem_erase there)
  · refine .refused (mineNext.symm ▸ clients) uninformed ?_ toldNext node
    rw [heardNext]
    exact (clientRefused_client unanswered lookup outcome).mpr refused

theorem client_keeps (live : Live world lookup key user) (found : world.user lookup = some user)
    (member : .client lookup ∈ mine world lookup) (outcome : Option Query)
    (counted : CountedWith world []) (listed : Listed world) :
    ∃ next new, jabberCapsClientIqcb (taken world (.client lookup) outcome) lookup outcome =
        some next ∧
      Changed lookup new (taken world (.client lookup) outcome) next ∧
      Faithful next lookup key ∧ CountedWith next [] ∧ Listed next := by
  let reply := taken world (.client lookup) outcome
  have foundReply : reply.user lookup = some user := found
  rw [jabberCapsClientIqcb, foundReply, bind_some]
  cases outcome with
  | none =>
    obtain ⟨next, runs, rest⟩ :=
      refuse_keeps live found member (show Refused key none from trivial) counted listed
    exact ⟨next, [none], runs, rest⟩
  | some query =>
    obtain ⟨uninformed, unanswered, calls, clients, node, ver, hash, held⟩ :=
      waiting_of_client live member
    obtain ⟨valid, validates, meaning⟩ := validated_eq ver hash query
    simp only [validates, bind_some]
    cases valid with
    | false =>
      obtain ⟨next, runs, rest⟩ := refuse_keeps live found member (meaning.mp rfl) counted listed
      exact ⟨next, [none], runs, rest⟩
    | true =>
      have accepted : ¬ Refused key (some query) := fun refused =>
        nomatch meaning.mpr refused
      obtain ⟨middle, after, info, inserts, changed, foundNext, fine, listedNext, entry, parts⟩ :=
        @accepted_changed reply lookup user key foundReply node ver hash counted listed
      let informed : UserData := { after with info := some info }
      have same : after.ref = user.ref ∧ after.extOutstanding = user.extOutstanding ∧
          after.exts = user.exts := by
        have keeps : (kept user).ref = user.ref ∧
            (kept user).extOutstanding = user.extOutstanding ∧ (kept user).exts = user.exts := by
          rw [kept]
          split <;> exact ⟨rfl, rfl, rfl⟩
        obtain rfl | ⟨rfl, _⟩ := parts
        · exact keeps
        · exact keeps
      obtain ⟨last, finishes, ended, left, fineLast, listedLast⟩ :=
        @finish_changed _ lookup informed foundNext (same.1.symm ▸ live.positive) fine listedNext
          (after.extOutstanding == 0)
      have whole := changed.trans ended
      have mineLast : mine last lookup = (mine world lookup).erase (.client lookup) :=
        whole.mine.trans (mine_taken world (.client lookup) (some query))
      have heardLast : heard last lookup =
          heard world lookup ++ [(.client lookup, some query)] :=
        whole.heard.trans (heard_taken world (.client lookup) (some query))
      have toldLast : told last lookup =
          if (after.extOutstanding == 0) = true then [some info] else [] := by
        rw [whole.told]
        change told world lookup ++ ([] ++ _) = _
        rw [calls, nil_append, nil_append]
      have acceptedLast : ¬ ClientRefused key (heard last lookup) := by
        rw [heardLast, clientRefused_client unanswered]
        exact accepted
      have entryLast : find key last.capstable = some info :=
        ended.grows.entries key info entry
      have outstanding : after.extOutstanding =
          extsIn (mine last lookup) + extsFailed (heard last lookup) := by
        rw [mineLast, heardLast, extsFailed_append, same.2.1, live.outstanding, exts_erase member]
        rfl
      have fewer := length_erase_of_mem member
      have positive := length_pos_of_mem member
      refine ⟨last, _, ?_, whole, ?_, fineLast, listedLast⟩
      · change ((insertInfo reply (kept user) (moved user)).bind _) = _
        rw [inserts]
        exact finishes
      by_cases done : after.extOutstanding = 0
      · rw [beq_iff_eq.mpr done] at left toldLast
        have empty : mine last lookup = [] := by
          apply eq_nil_of_length_eq_zero
          rw [length_split]
          rw [← mineLast] at clients
          omega
        refine faithful_of_answer left ?_ empty
          (.complete acceptedLast (by omega) info entryLast toldLast)
        change after.ref = 1
        rw [same.1, live.refs]
        rw [← mineLast, empty] at fewer
        change 0 = _ at fewer
        omega
      · rw [beq_eq_false_iff_ne.mpr done] at left toldLast
        refine faithful_of_stage left ?_ outstanding ?_ ?_
        · change after.ref = _
          rw [mineLast, same.1, live.refs]
          omega
        · rw [mineLast]
          intro name there
          change name ∈ after.exts
          rw [same.2.2]
          exact live.names name (mem_of_mem_erase there)
        · refine .known (mineLast.symm ▸ clients) info rfl entryLast acceptedLast toldLast
            (Nat.pos_of_ne_zero done) ?_
          intro client there bare
          obtain ⟨unhashed, holding⟩ := held (by omega)
          obtain rfl | ⟨rfl, inserted, slot, given⟩ := parts
          · change (kept user).node = _
            rw [kept, if_pos unhashed]
            exact node
          · -- the new info holds the exts of the user data
            obtain ⟨later, there', _, keeps⟩ := ended.grows.infos info inserted slot
            change last.infos[info]? = some later at there'
            rw [there] at there'
            cases there'
            rw [given, moved, if_pos unhashed] at keeps
            exact absurd bare (keeps holding)

/-! ### The reply for an ext -/

theorem Stage.ready (stage : Stage world lookup key user) (listed : Listed world) :
    Ready world key user := by
  unfold Ready
  cases stage with
  | waiting clients uninformed unanswered calls node =>
    rw [uninformed]
    exact fun _ => node
  | known clients info informed entry accepted calls outstanding node =>
    rw [informed]
    obtain ⟨client, slot, _⟩ := listed key info entry
    exact ⟨client, slot, node client slot⟩
  | refused clients uninformed refused calls node =>
    rw [uninformed]
    exact fun _ => node

theorem Stage.takenExt (stage : Stage world lookup key user) {name : Bytes}
    (member : .ext lookup name ∈ mine world lookup) (outcome : Option Query) :
    Stage (taken world (.ext lookup name) outcome) lookup key user := by
  have mineTaken : mine (taken world (.ext lookup name) outcome) lookup =
      (mine world lookup).erase (.ext lookup name) :=
    mine_taken world (.ext lookup name) outcome
  have heardTaken : heard (taken world (.ext lookup name) outcome) lookup =
      heard world lookup ++ [(.ext lookup name, outcome)] :=
    heard_taken world (.ext lookup name) outcome
  have sameClients : clientsIn (mine (taken world (.ext lookup name) outcome) lookup) =
      clientsIn (mine world lookup) := by
    rw [mineTaken, clients_erase member]
    rfl
  have sameRefused : ClientRefused key (heard (taken world (.ext lookup name) outcome) lookup) ↔
      ClientRefused key (heard world lookup) := by
    rw [heardTaken, clientRefused_ext]
  cases stage with
  | waiting clients uninformed unanswered calls node ver hash held =>
    refine .waiting (sameClients.trans clients) uninformed ?_ calls node ver hash held
    rw [heardTaken, clientAnswer_ext]
    exact unanswered
  | known clients info informed listed accepted calls outstanding node =>
    exact .known (sameClients.trans clients) info informed listed
      (fun refused => accepted (sameRefused.mp refused)) calls outstanding node
  | refused clients uninformed refused calls node =>
    exact .refused (sameClients.trans clients) uninformed (sameRefused.mpr refused) calls node

theorem Stage.changed (stage : Stage world lookup key user) (listed : Listed world)
    (changed : Changed lookup [] world next) {held : Option Nat} {outstanding : Nat}
    (holds : user.nodeExts ≠ none → held ≠ none) (fewer : outstanding ≤ user.extOutstanding)
    (more : user.info ≠ none → 0 < outstanding) :
    Stage next lookup key { user with nodeExts := held, extOutstanding := outstanding } := by
  have calledAs {calls : List (Option Nat)} (called : told world lookup = calls) :
      told next lookup = calls := by
    rw [changed.told, called, append_nil]
  cases stage with
  | waiting clients uninformed unanswered calls node ver hash kept =>
    refine .waiting (changed.mine.symm ▸ clients) uninformed (changed.heard.symm ▸ unanswered)
      (calledAs calls) node ver hash ?_
    intro positive
    obtain ⟨unhashed, holding⟩ := kept (Nat.lt_of_lt_of_le positive fewer)
    exact ⟨unhashed, holds holding⟩
  | known clients info informed entry accepted calls positive node =>
    refine .known (changed.mine.symm ▸ clients) info informed
      (changed.grows.entries key info entry) (changed.heard.symm ▸ accepted) (calledAs calls)
      (more (by rw [informed]; exact some_ne_none info)) ?_
    intro later there bare
    obtain ⟨client, slot, _⟩ := listed key info entry
    obtain ⟨after, same, _, keeps⟩ := changed.grows.infos info client slot
    rw [there] at same
    cases same
    exact node client slot (Classical.byContradiction fun has => keeps has bare)
  | refused clients uninformed refused calls node =>
    exact .refused (changed.mine.symm ▸ clients) uninformed (changed.heard.symm ▸ refused)
      (calledAs calls) node

theorem ext_keeps (live : Live world lookup key user) (found : world.user lookup = some user)
    {name : Bytes} (member : .ext lookup name ∈ mine world lookup) (outcome : Option Query)
    (counted : CountedWith world []) (listed : Listed world) :
    ∃ next new, jabberCapsExtIqcb (taken world (.ext lookup name) outcome) lookup name outcome =
        some next ∧
      Changed lookup new (taken world (.ext lookup name) outcome) next ∧
      Faithful next lookup key ∧ CountedWith next [] ∧ Listed next := by
  let reply := taken world (.ext lookup name) outcome
  have foundReply : reply.user lookup = some user := found
  have stage : Stage reply lookup key user := live.stage.takenExt member outcome
  have fewer := length_erase_of_mem member
  have positive := length_pos_of_mem member
  have erased := exts_erase member
  change _ = _ + 1 at erased
  have refsNext {next : World} (mineNext : mine next lookup =
      (mine world lookup).erase (.ext lookup name)) :
      user.ref = (mine next lookup).length + 1 := by
    rw [mineNext, live.refs]
    omega
  have namesNext {next : World} (mineNext : mine next lookup =
      (mine world lookup).erase (.ext lookup name)) (other : Bytes)
      (there : .ext lookup other ∈ mine next lookup) : other ∈ user.exts := by
    rw [mineNext] at there
    exact live.names other (mem_of_mem_erase there)
  cases outcome with
  | none =>
    obtain ⟨next, unrefs, changed, left, fine, listedNext⟩ :=
      @unref_changed reply lookup user foundReply live.positive counted listed
    have mineNext := changed.mine.trans (mine_taken world (.ext lookup name) none)
    have heardNext := changed.heard.trans (heard_taken world (.ext lookup name) none)
    have outstanding : user.extOutstanding =
        extsIn (mine next lookup) + extsFailed (heard next lookup) := by
      have counts := live.outstanding
      rw [mineNext, heardNext, extsFailed_append]
      change _ = extsIn ((mine world lookup).erase (.ext lookup name)) +
        (extsFailed (heard world lookup) + 1)
      omega
    refine ⟨next, [], ?_, changed, faithful_of_stage left (refsNext mineNext) outstanding
      (namesNext mineNext) (stage.changed listed changed id (Nat.le_refl _) ?_), fine, listedNext⟩
    · rw [jabberCapsExtIqcb, foundReply]
      exact unrefs
    · have counts := live.outstanding
      omega
  | some query =>
    obtain ⟨next, held, runs, changed, left, fine, listedNext, holds⟩ :=
      @extIqcb_changed reply lookup user key foundReply live.positive name
        (live.names name member) (stage.ready listed) counted listed query
    have mineNext := changed.mine.trans (mine_taken world (.ext lookup name) (some query))
    have heardNext := changed.heard.trans (heard_taken world (.ext lookup name) (some query))
    have outstanding : user.extOutstanding - 1 =
        extsIn (mine next lookup) + extsFailed (heard next lookup) := by
      have counts := live.outstanding
      rw [mineNext, heardNext, extsFailed_append]
      change _ = extsIn ((mine world lookup).erase (.ext lookup name)) +
        (extsFailed (heard world lookup) + 0)
      omega
    refine ⟨next, _, runs, changed, ?_, fine, listedNext⟩
    cases done : completes (answeredExt user held) with
    | false =>
      rw [done] at changed left
      refine faithful_of_stage left (refsNext mineNext) outstanding (namesNext mineNext)
        (stage.changed listed changed holds (Nat.sub_le _ 1) ?_)
      intro informed
      have waits : (user.extOutstanding - 1 == 0) = false := by
        rw [completes, Bool.and_eq_false_iff] at done
        exact done.resolve_left (by
          change ¬ user.info.isSome = false
          rw [Bool.not_eq_false]
          exact isSome_iff_ne_none.mpr informed)
      exact Nat.pos_of_ne_zero (beq_eq_false_iff_ne.mp waits)
    | true =>
      rw [done] at changed left
      obtain ⟨informed, last⟩ := Bool.and_eq_true_iff.mp done
      have none' : user.extOutstanding - 1 = 0 := beq_iff_eq.mp last
      cases stage with
      | waiting clients uninformed =>
        change user.info.isSome = true at informed
        rw [uninformed] at informed
        cases informed
      | refused clients uninformed =>
        change user.info.isSome = true at informed
        rw [uninformed] at informed
        cases informed
      | known clients info same entry accepted calls _ node =>
        have empty : mine next lookup = [] := by
          apply eq_nil_of_length_eq_zero
          rw [length_split, changed.mine]
          rw [changed.mine] at outstanding
          omega
        refine faithful_of_answer left ?_ empty (.complete ?_ (by omega) info
          (changed.grows.entries key info entry) ?_)
        · change user.ref = 1
          rw [refsNext mineNext, empty]
          rfl
        · rw [changed.heard]
          exact accepted
        · rw [changed.told, calls, same]
          rfl

end Purple.Jabber.Caps
