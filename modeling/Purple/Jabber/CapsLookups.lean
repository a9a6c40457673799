/-
What becomes of a lookup of entity capabilities.

A lookup is judged by its own requests, the answers to them and the calls of its
callback.  `Changed` is what any part of the code that works for one lookup may
do to the world; the stages of a lookup are carried through it.
-/

import Purple.Jabber.CapsRefs

namespace Purple.Jabber.Caps

open List Option PartialRun

variable {world next last : World} {lookup : Nat} {user : UserData} {key : JabberCapsTuple}

def told (world : World) (lookup : Nat) : List (Option Nat) :=
  (world.calls.filter (·.lookup = lookup)).map (·.info)

/-- The tables only grow: entries stay, and an info keeps the exts that it has. -/
structure Grows (world next : World) : Prop where
  entries : ∀ key info, find key world.capstable = some info → find key next.capstable = some info
  infos : ∀ (info : Nat) (client : JabberCapsClientInfo), world.infos[info]? = some client →
    ∃ later : JabberCapsClientInfo, next.infos[info]? = some later ∧ later.tuple = client.tuple ∧
      (client.exts ≠ none → later.exts ≠ none)

/-- Nothing but the tables, the user data of `lookup` and its calls, which are `new`. -/
structure Changed (lookup : Nat) (new : List (Option Nat)) (world next : World) : Prop where
  asked : next.asked = world.asked
  pending : next.pending = world.pending
  answered : next.answered = world.answered
  length : next.userdata.length = world.userdata.length
  others : ∀ other, other ≠ lookup → next.user other = world.user other
  calls : ∃ calls : List Call, next.calls = world.calls ++ calls ∧
    (∀ call ∈ calls, call.lookup = lookup) ∧ calls.map (·.info) = new
  grows : Grows world next

theorem Grows.of_same (capstable : next.capstable = world.capstable)
    (infos : next.infos = world.infos) : Grows world next where
  entries key info found := by
    rw [capstable]
    exact found
  infos info client found := by
    rw [infos]
    exact ⟨client, found, rfl, id⟩

theorem Grows.trans (first : Grows world next) (second : Grows next last) : Grows world last where
  entries key info found := second.entries key info (first.entries key info found)
  infos info client found := by
    obtain ⟨middle, there, tuple, kept⟩ := first.infos info client found
    obtain ⟨later, where', tupleLater, keptLater⟩ := second.infos info middle there
    exact ⟨later, where', tupleLater.trans tuple, fun has => keptLater (kept has)⟩

theorem Changed.trans {early late : List (Option Nat)} (first : Changed lookup early world next)
    (second : Changed lookup late next last) : Changed lookup (early ++ late) world last where
  asked := second.asked.trans first.asked
  pending := second.pending.trans first.pending
  answered := second.answered.trans first.answered
  length := second.length.trans first.length
  others other different := (second.others other different).trans (first.others other different)
  grows := first.grows.trans second.grows
  calls := by
    obtain ⟨calls, whole, own, infos⟩ := first.calls
    obtain ⟨later, wholeLater, ownLater, infosLater⟩ := second.calls
    refine ⟨calls ++ later, by rw [wholeLater, whole, append_assoc], ?_, ?_⟩
    · intro call member
      obtain old | new := mem_append.mp member
      · exact own call old
      · exact ownLater call new
    · rw [map_append, infos, infosLater]

theorem changed_exts (world : World) (lookup : Nat) (nodeExts : List (Option JabberCapsNodeExts))
    (nodetable : List (Bytes × Nat)) :
    Changed lookup [] world { world with nodeExts := nodeExts, nodetable := nodetable } :=
  ⟨rfl, rfl, rfl, rfl, fun _ _ => rfl, ⟨[], (append_nil _).symm, by simp, rfl⟩,
    Grows.of_same rfl rfl⟩

theorem changed_putUser (world : World) (lookup : Nat) (new : Option UserData) :
    Changed lookup [] world (world.putUser lookup new) := by
  refine ⟨rfl, rfl, rfl, length_set, ?_, ⟨[], (append_nil _).symm, by simp, rfl⟩,
    Grows.of_same rfl rfl⟩
  intro other different
  change ((world.userdata.set lookup new)[other]?).join = _
  rw [getElem?_set_ne (Ne.symm different)]
  rfl

theorem changed_tell (world : World) (lookup : Nat) (info : Option Nat) (exts : List Bytes) :
    Changed lookup [info] world (world.tell lookup info exts) := by
  refine ⟨rfl, rfl, rfl, rfl, fun _ _ => rfl, ⟨[⟨lookup, info, exts⟩], rfl, ?_, rfl⟩,
    Grows.of_same rfl rfl⟩
  intro call member
  rw [mem_singleton.mp member]

theorem changed_putInfo {info at' : Nat} {client : JabberCapsClientInfo}
    (slot : world.infos[info]? = some client) (lookup : Nat) :
    Changed lookup [] world (world.putInfo info { client with exts := some at' }) := by
  refine ⟨rfl, rfl, rfl, rfl, fun _ _ => rfl, ⟨[], (append_nil _).symm, by simp, rfl⟩,
    ⟨fun _ _ found => found, ?_⟩⟩
  intro other older found
  have bound := (List.getElem?_eq_some_iff.mp slot).1
  by_cases same : info = other
  · subst same
    rw [slot] at found
    cases found
    exact ⟨_, getElem?_set_self bound, rfl, fun _ impossible => nomatch impossible⟩
  · exact ⟨older, (getElem?_set_ne same).trans found, rfl, id⟩

theorem changed_addInfo (fresh : find key world.capstable = none) (held : Option Nat)
    (lookup : Nat) :
    Changed lookup [] world { world with
      infos := world.infos ++ [⟨held, key⟩]
      capstable := (key, world.infos.length) :: world.capstable } := by
  refine ⟨rfl, rfl, rfl, rfl, fun _ _ => rfl, ⟨[], (append_nil _).symm, by simp, rfl⟩, ?_, ?_⟩
  · intro other info found
    change (if key = other then some world.infos.length else find other world.capstable) = _
    rw [if_neg]
    · exact found
    · rintro rfl
      rw [fresh] at found
      cases found
  · intro info client found
    have bound := (List.getElem?_eq_some_iff.mp found).1
    exact ⟨client, (getElem?_append_left bound).trans found, rfl, id⟩

theorem user_putUser (bound : lookup < world.userdata.length) (new : Option UserData) :
    (world.putUser lookup new).user lookup = new := by
  change ((world.userdata.set lookup new)[lookup]?).join = new
  rw [getElem?_set_self bound]
  rfl

theorem user_bound (found : world.user lookup = some user) : lookup < world.userdata.length :=
  (List.getElem?_eq_some_iff.mp (user_slot found)).1

def settled (complete : Bool) (user : UserData) : UserData :=
  if complete then { user with info := none, exts := [] } else user

/-- Infos that the table lists exist, under their tuples. -/
def Listed (world : World) : Prop :=
  ∀ key info, find key world.capstable = some info →
    ∃ client, world.infos[info]? = some client ∧ client.tuple = key

theorem unref_changed (found : world.user lookup = some user) (positive : 0 < user.ref)
    (counted : CountedWith world []) (listed : Listed world) :
    ∃ next, cbplususerdataUnref world lookup = some next ∧ Changed lookup [] world next ∧
      next.user lookup = released user ∧ CountedWith next [] ∧ Listed next := by
  obtain ⟨nodeExts, unrefs, fine⟩ := userdataUnref_counted found positive counted
  exact ⟨_, unrefs, (changed_exts world lookup nodeExts world.nodetable).trans
    (changed_putUser _ lookup _), user_putUser (user_bound found) _, fine, listed⟩

theorem finish_changed (found : world.user lookup = some user) (positive : 0 < user.ref)
    (counted : CountedWith world []) (listed : Listed world) (complete : Bool) :
    ∃ next, finish world lookup complete = some next ∧
      Changed lookup (if complete then [user.info] else []) world next ∧
      next.user lookup = released (settled complete user) ∧ CountedWith next [] ∧ Listed next := by
  cases complete with
  | false => exact unref_changed found positive counted listed
  | true =>
    let informed := (world.tell lookup user.info user.exts).putUser lookup
      (some (settled true user))
    have completes : jabberCapsGetInfoComplete world lookup = some informed := by
      rw [jabberCapsGetInfoComplete, found]
      rfl
    have informedCounted : CountedWith informed [] :=
      @putUser_counted (world.tell lookup user.info user.exts) lookup (some user)
        (user_slot found) (some (settled true user)) [] [] (fun _ => rfl) counted
    obtain ⟨next, unrefs, changed, left, fine, listed⟩ :=
      @unref_changed informed lookup (settled true user) (user_putUser (user_bound found) _)
        positive informedCounted listed
    refine ⟨next, ?_, ?_, left, fine, listed⟩
    · rw [finish, if_pos rfl, completes]
      exact unrefs
    · exact ((changed_tell world lookup _ _).trans (changed_putUser _ lookup _)).trans changed

theorem insertInfo_changed {held : Option Nat} (node : user.node = some key.node)
    (ver : user.ver = some key.ver) (hash : user.hash = key.hash)
    (counted : CountedWith world held.toList) (listed : Listed world) (lookup : Nat) :
    ∃ next after info, insertInfo world user held = some (next, after, info) ∧
      Changed lookup [] world next ∧ next.userdata = world.userdata ∧ CountedWith next [] ∧
      Listed next ∧ find key next.capstable = some info ∧
      (after = user ∨ after = { user with node := none, ver := none, hash := none } ∧
        ∃ client, next.infos[info]? = some client ∧ client.exts = held) := by
  have keyed : (⟨key.node, key.ver, user.hash⟩ : JabberCapsTuple) = key := by rw [hash]
  rw [insertInfo, node, bind_some, ver, bind_some]
  simp only [keyed]
  cases found : find key world.capstable with
  | some value =>
    have given : CountedWith world (held.toList ++ []) := by
      rw [append_nil]
      exact counted
    obtain ⟨nodeExts, unrefs, fine⟩ := unrefOptional_counted given
    simp only [unrefs, map_some]
    exact ⟨_, user, value, rfl, changed_exts world lookup nodeExts world.nodetable, rfl, fine,
      listed, found, Or.inl rfl⟩
  | none =>
    have given : CountedWith world (held.toList ++ []) := by
      rw [append_nil]
      exact counted
    refine ⟨_, _, world.infos.length, rfl, changed_addInfo found held lookup, rfl,
      addInfo_counted key given _, ?_, if_pos rfl, Or.inr ⟨rfl, _,
        getElem?_concat_length, rfl⟩⟩
    intro other info there
    change (if key = other then some world.infos.length else find other world.capstable) = _ at there
    split at there
    · rename_i same
      cases there
      exact ⟨_, getElem?_concat_length, same⟩
    · obtain ⟨client, slot, tuple⟩ := listed other info there
      exact ⟨client, (getElem?_append_left (List.getElem?_eq_some_iff.mp slot).1).trans slot,
        tuple⟩

def Ready (world : World) (key : JabberCapsTuple) (user : UserData) : Prop :=
  match user.info with
  | some info => ∃ client, world.infos[info]? = some client ∧
      (client.exts = none → user.node = some key.node)
  | none => user.nodeExts = none → user.node = some key.node

theorem exts_of_holder {carried : List Nat} {at' : Nat} (counted : CountedWith world carried)
    (held : 0 < holders world at') : ∃ exts, world.exts at' = some exts := by
  have here := counted at'
  obtain ⟨exts, found, _⟩ := exts_of_refs (show 0 < refs world at' by omega)
  exact ⟨exts, found⟩

theorem holders_of_info {info at' : Nat} {client : JabberCapsClientInfo}
    (slot : world.infos[info]? = some client) (held : client.exts = some at') :
    0 < holders world at' := by
  have counted : 0 < world.infos.countP (·.exts = some at') :=
    countP_pos_iff.mpr ⟨client, mem_of_getElem? slot, decide_eq_true held⟩
  rw [holders]
  omega

theorem holders_of_user {at' : Nat} (found : world.user lookup = some user)
    (held : user.nodeExts = some at') : 0 < holders world at' := by
  have counted : 0 < world.userdata.countP (heldBy · = some at') :=
    countP_pos_iff.mpr ⟨some user, mem_of_getElem? (user_slot found), decide_eq_true held⟩
  rw [holders]
  omega

theorem listed_putInfo {info : Nat} {client : JabberCapsClientInfo} (listed : Listed world)
    (slot : world.infos[info]? = some client) (exts : Option Nat) :
    Listed (world.putInfo info { client with exts := exts }) := by
  intro key other found
  obtain ⟨older, there, tuple⟩ := listed key other found
  by_cases same : info = other
  · subst same
    rw [slot] at there
    cases there
    exact ⟨_, getElem?_set_self (List.getElem?_eq_some_iff.mp slot).1, tuple⟩
  · exact ⟨older, (getElem?_set_ne same).trans there, tuple⟩

theorem extsForReply_changed (found : world.user lookup = some user) (ready : Ready world key user)
    (counted : CountedWith world []) (listed : Listed world) :
    ∃ next at' held exts, extsForReply world lookup user = some (next, at') ∧
      Changed lookup [] world next ∧ next.user lookup = some { user with nodeExts := held } ∧
      next.exts at' = some exts ∧ CountedWith next [] ∧ Listed next ∧
      (user.nodeExts ≠ none → held ≠ none) := by
  have asIs (at' : Nat) (held : 0 < holders world at') :
      ∃ next at'' held exts, some (world, at') = some (next, at'') ∧
        Changed lookup [] world next ∧ next.user lookup = some { user with nodeExts := held } ∧
        next.exts at'' = some exts ∧ CountedWith next [] ∧ Listed next ∧
        (user.nodeExts ≠ none → held ≠ none) := by
    obtain ⟨exts, there⟩ := exts_of_holder counted held
    exact ⟨world, at', user.nodeExts, exts, rfl,
      changed_exts world lookup world.nodeExts world.nodetable, found, there, counted, listed, id⟩
  obtain ⟨ref, node, ver, hash, info, names, outstanding, nodeExts⟩ := user
  cases info with
  | some info =>
    obtain ⟨client, slot, known⟩ := ready
    obtain ⟨clientExts, tuple⟩ := client
    cases clientExts with
    | some at' =>
      have reached : extsForReply world lookup
          ⟨ref, node, ver, hash, some info, names, outstanding, nodeExts⟩ =
            some (world, at') := by
        change ((world.infos[info]?).bind _) = _
        rw [slot]
        rfl
      rw [reached]
      exact asIs at' (holders_of_info slot rfl)
    | none =>
      obtain rfl : node = some key.node := known rfl
      obtain ⟨allExts, nodetable, at', finds, carried⟩ := findExts_counted counted key.node
      have reached : extsForReply world lookup
          ⟨ref, some key.node, ver, hash, some info, names, outstanding, nodeExts⟩ =
            some (({ world with nodeExts := allExts, nodetable := nodetable }).putInfo info
              ⟨some at', tuple⟩, at') := by
        change ((world.infos[info]?).bind _) = _
        rw [slot]
        change ((jabberCapsFindExtsByNode world key.node).map _) = _
        rw [finds]
        rfl
      let made : World := { world with nodeExts := allExts, nodetable := nodetable }
      have slotMade : made.infos[info]? = some ⟨none, tuple⟩ := slot
      have fine := putInfo_counted slotMade rfl carried
      have slotNext : (made.putInfo info ⟨some at', tuple⟩).infos[info]? =
          some ⟨some at', tuple⟩ :=
        getElem?_set_self (List.getElem?_eq_some_iff.mp slot).1
      obtain ⟨exts, there⟩ := exts_of_holder fine (holders_of_info slotNext rfl)
      exact ⟨_, at', nodeExts, exts, reached,
        (changed_exts world lookup allExts nodetable).trans (changed_putInfo slotMade lookup),
        found, there, fine, @listed_putInfo made info ⟨none, tuple⟩ listed slotMade _, id⟩
  | none =>
    cases nodeExts with
    | some at' => exact asIs at' (holders_of_user found rfl)
    | none =>
      obtain rfl : node = some key.node := ready rfl
      obtain ⟨allExts, nodetable, at', finds, carried⟩ := findExts_counted counted key.node
      let made : World := { world with nodeExts := allExts, nodetable := nodetable }
      let taken : UserData :=
        ⟨ref, some key.node, ver, hash, none, names, outstanding, some at'⟩
      have reached : extsForReply world lookup
          ⟨ref, some key.node, ver, hash, none, names, outstanding, none⟩ =
            some (made.putUser lookup (some taken), at') := by
        change ((jabberCapsFindExtsByNode world key.node).map _) = _
        rw [finds]
        rfl
      have foundMade : made.user lookup =
          some ⟨ref, some key.node, ver, hash, none, names, outstanding, none⟩ := found
      have fine : CountedWith (made.putUser lookup (some taken)) [] := by
        refine putUser_counted (user_slot foundMade) _ (fun other => ?_) carried
        change 0 + [at'].count other = one (some at' = some other) + 0
        rw [Nat.zero_add, Nat.add_zero]
        exact count_toList (some at') other
      have foundNext := user_putUser (user_bound foundMade) (some taken)
      obtain ⟨exts, there⟩ := exts_of_holder fine (holders_of_user foundNext rfl)
      exact ⟨_, at', some at', exts, reached,
        (changed_exts world lookup allExts nodetable).trans (changed_putUser made lookup _),
        foundNext, there, fine, listed, fun _ impossible => nomatch impossible⟩

def answeredExt (user : UserData) (held : Option Nat) : UserData :=
  { user with nodeExts := held, extOutstanding := user.extOutstanding - 1 }

def completes (user : UserData) : Bool := user.info.isSome && user.extOutstanding == 0

theorem extIqcb_changed (found : world.user lookup = some user) (positive : 0 < user.ref)
    {name : Bytes} (named : name ∈ user.exts) (ready : Ready world key user)
    (counted : CountedWith world []) (listed : Listed world) (query : Query) :
    ∃ next held, jabberCapsExtIqcb world lookup name (some query) = some next ∧
      Changed lookup (if completes (answeredExt user held) then [user.info] else []) world next ∧
      next.user lookup = released (settled (completes (answeredExt user held))
        (answeredExt user held)) ∧
      CountedWith next [] ∧ Listed next ∧ (user.nodeExts ≠ none → held ≠ none) := by
  obtain ⟨middle, at', held, exts, finds, changed, foundMiddle, there, fine, listedMiddle, kept⟩ :=
    extsForReply_changed found ready counted listed
  let lowered := middle.putUser lookup (some (answeredExt user held))
  have loweredCounted : CountedWith lowered [] :=
    putUser_counted (user_slot foundMiddle) _ (fun _ => rfl) fine
  have thereLowered : lowered.exts at' = some exts := there
  let learned := lowered.putExts at' (some (learn exts name query.features.reverse))
  have learnedCounted : CountedWith learned [] := by
    intro other
    have before := loweredCounted other
    rw [refs_putExts thereLowered]
    change _ = holders lowered other + _
    by_cases same : other = at'
    · rw [if_pos same, same]
      rw [same, refs, thereLowered] at before
      exact before
    · rw [if_neg same]
      exact before
  have foundLearned : learned.user lookup = some (answeredExt user held) :=
    user_putUser (user_bound foundMiddle) _
  obtain ⟨next, finishes, changedLater, left, fineNext, listedNext⟩ :=
    finish_changed foundLearned positive learnedCounted listedMiddle
      (completes (answeredExt user held))
  refine ⟨next, held, ?_, ?_, left, fineNext, listedNext, kept⟩
  · rw [jabberCapsExtIqcb, found, bind_some]
    simp only [finds, bind_some, foundMiddle, there]
    rw [if_neg (not_not.mpr named)]
    exact finishes
  · exact ((changed.trans (changed_putUser middle lookup _)).trans
      (changed_exts lowered lookup _ lowered.nodetable)).trans changedLater

end Purple.Jabber.Caps
