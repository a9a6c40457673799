/-
Lookups from the call of `jabber_caps_get_info` to their end.

Exactly one call of the callback is the rule.  The exception is meant: an ext
request that fails is not taken from the outstanding ones, so the callback waits
for ever where the client request was not refused.
-/

import Purple.Jabber.CapsReplies

namespace Purple.Jabber.Caps

open List Option CString PartialRun

variable {world next : World} {lookup : Nat} {user : UserData} {key : JabberCapsTuple}

/-! ### The requests for exts -/

def unknown (known : Bytes → List Bytes) (names : List Bytes) : List Bytes :=
  names.filter fun name => known name = []

variable {new : List (Option Nat)} {request : Request}

theorem requestExts_eq (known : Bytes → List Bytes) (lookup : Nat) (names : List Bytes)
    (user : UserData) (sent : List Request) :
    requestExts known lookup names user sent =
      ({ user with
          ref := user.ref + (unknown known names).length
          extOutstanding := user.extOutstanding + (unknown known names).length
          exts := names.reverse ++ user.exts },
        sent ++ (unknown known names).map (.ext lookup)) := by
  induction names generalizing user sent with
  | nil =>
    rw [requestExts]
    exact congrArg₂ Prod.mk rfl (append_nil sent).symm
  | cons name rest ih =>
    rw [requestExts, reverse_cons, append_assoc, unknown, filter_cons]
    by_cases new : known name = []
    · rw [if_pos new, ih, if_pos (decide_eq_true new), length_cons, map_cons]
      change (({ user with
        ref := user.ref + 1 + (unknown known rest).length
        extOutstanding := user.extOutstanding + 1 + (unknown known rest).length
        exts := rest.reverse ++ (name :: user.exts) } : UserData), _) = _
      rw [Nat.add_assoc, Nat.add_assoc, Nat.add_comm 1, append_assoc]
      rfl
    · rw [if_neg new, ih, if_neg (fun known => new (of_decide_eq_true known))]
      rfl

theorem extsForLookup_found (counted : CountedWith world []) (listed : Listed world)
    (bare : user.nodeExts = none)
    (informed : ∀ info, user.info = some info → find key world.capstable = some info)
    (node : Bytes) (lookup : Nat) :
    ∃ next held at' exts, extsForLookup world user node =
        some (next, { user with nodeExts := held }, at') ∧
      Changed lookup [] world next ∧ next.userdata = world.userdata ∧ next.exts at' = some exts ∧
      CountedWith next held.toList ∧ Listed next ∧ (user.info = none → held ≠ none) := by
  obtain ⟨ref, named, ver, hash, info, names, outstanding, nodeExts⟩ := user
  obtain rfl : nodeExts = none := bare
  obtain ⟨allExts, nodetable, at', finds, carried⟩ := findExts_counted counted node
  let made : World := { world with nodeExts := allExts, nodetable := nodetable }
  cases info with
  | none =>
    obtain ⟨exts, there, _⟩ := @exts_of_refs made at' (by
      have here := carried at'
      rw [count_cons_self] at here
      change refs made at' = _ at here
      omega)
    refine ⟨made, some at', at', exts, ?_, changed_exts world lookup allExts nodetable, rfl,
      there, carried, listed, fun _ impossible => nomatch impossible⟩
    change (jabberCapsFindExtsByNode world node).map _ = _
    rw [finds]
    rfl
  | some info =>
    obtain ⟨client, slot, _⟩ := listed key info (informed info rfl)
    obtain ⟨clientExts, tuple⟩ := client
    cases clientExts with
    | some at' =>
      obtain ⟨exts, there⟩ := exts_of_holder counted (holders_of_info slot rfl)
      refine ⟨world, none, at', exts, ?_,
        changed_exts world lookup world.nodeExts world.nodetable, rfl, there, counted, listed,
        fun impossible => nomatch impossible⟩
      change ((world.infos[info]?).bind _) = _
      rw [slot]
      rfl
    | none =>
      have slotMade : made.infos[info]? = some ⟨none, tuple⟩ := slot
      have fine := putInfo_counted slotMade rfl carried
      have slotNext : (made.putInfo info ⟨some at', tuple⟩).infos[info]? =
          some ⟨some at', tuple⟩ :=
        getElem?_set_self (List.getElem?_eq_some_iff.mp slot).1
      obtain ⟨exts, there⟩ := exts_of_holder fine (holders_of_info slotNext rfl)
      refine ⟨made.putInfo info ⟨some at', tuple⟩, none, at', exts, ?_,
        (changed_exts world lookup allExts nodetable).trans (changed_putInfo slotMade lookup),
        rfl, there, fine, @listed_putInfo made info ⟨none, tuple⟩ listed slotMade _,
        fun impossible => nomatch impossible⟩
      change ((world.infos[info]?).bind _) = _
      rw [slot]
      change ((jabberCapsFindExtsByNode world node).map _) = _
      rw [finds]
      rfl

theorem sendExts_sent (counted : CountedWith world []) (listed : Listed world)
    (bare : user.nodeExts = none)
    (informed : ∀ info, user.info = some info → find key world.capstable = some info)
    (lookup : Nat) (node : Bytes) (sent : List Request) (exts : Option (List Bytes)) :
    ∃ next held all asked, sendExts world lookup node user sent exts =
        some (next, { user with
          ref := user.ref + asked.length
          extOutstanding := user.extOutstanding + asked.length
          exts := all, nodeExts := held }, sent ++ asked.map (.ext lookup)) ∧
      Changed lookup [] world next ∧ next.userdata = world.userdata ∧
      CountedWith next held.toList ∧ Listed next ∧ (∀ name ∈ asked, name ∈ all) ∧
      (asked ≠ [] → exts ≠ none ∧ (user.info = none → held ≠ none)) := by
  cases exts with
  | none =>
    refine ⟨world, none, user.exts, [], ?_,
      changed_exts world lookup world.nodeExts world.nodetable, rfl, counted, listed,
      forall_mem_nil _, fun impossible => absurd rfl impossible⟩
    rw [sendExts, ← bare, map_nil, append_nil]
    rfl
  | some names =>
    obtain ⟨next, held, at', found, finds, changed, same, there, fine, listedNext, holds⟩ :=
      extsForLookup_found counted listed bare informed node lookup
    refine ⟨next, held, names.reverse ++ user.exts, unknown found.exts names, ?_, changed, same,
      fine, listedNext, ?_, fun _ => ⟨some_ne_none names, holds⟩⟩
    · rw [sendExts, finds, bind_some]
      simp only [there, map_some, requestExts_eq]
    · intro name member
      exact mem_append_left _ (mem_reverse.mpr (mem_filter.mp member).1)

/-- The counters are exact, the tables consistent, and every lookup at one of its stages. -/
structure Sound (world : World) : Prop where
  counted : CountedWith world []
  listed : Listed world
  length : world.userdata.length = world.asked.length
  pending : ∀ request ∈ world.pending, request.lookup < world.asked.length
  answered : ∀ answer ∈ world.answered, answer.1.lookup < world.asked.length
  calls : ∀ call ∈ world.calls, call.lookup < world.asked.length
  faithful : ∀ lookup key, world.asked[lookup]? = some key → Faithful world lookup key

theorem Changed.calls_bounded (changed : Changed lookup new world next) {bound : Nat}
    (inside : lookup < bound) (before : ∀ call ∈ world.calls, call.lookup < bound) :
    ∀ call ∈ next.calls, call.lookup < bound := by
  obtain ⟨calls, whole, own, _⟩ := changed.calls
  rw [whole]
  intro call member
  obtain old | new := mem_append.mp member
  · exact before call old
  · rw [own call new]
    exact inside

/-! ### A new lookup -/

def started (world : World) (key : JabberCapsTuple) : World :=
  { world with
    asked := world.asked ++ [key]
    userdata := world.userdata ++ [none] }

def sends (world : World) (sent : List Request) : World :=
  { world with pending := world.pending ++ sent }

theorem started_counted (counted : CountedWith world []) (key : JabberCapsTuple) :
    CountedWith (started world key) [] := by
  intro at'
  have before := counted at'
  change refs world at' = world.nodetable.countP (·.2 = at') +
    world.infos.countP (·.exts = some at') +
    (world.userdata ++ [none]).countP (heldBy · = some at') + 0
  rw [countP_append, countP_singleton]
  exact before

theorem mine_sends (sent : List Request) (other : Nat) :
    mine (sends world sent) other = mine world other ++ sent.filter (·.lookup = other) :=
  filter_append ..

theorem sound_of_started (sound : Sound world) {middle : World}
    (changed : Changed world.asked.length new (started world key) middle)
    (counted : CountedWith middle []) (listed : Listed middle) {sent : List Request}
    (own : ∀ request ∈ sent, request.lookup = world.asked.length)
    (faithful : Faithful (sends middle sent) world.asked.length key) :
    Sound (sends middle sent) := by
  have asked : (sends middle sent).asked = world.asked ++ [key] := changed.asked
  have more : (sends middle sent).asked.length = world.asked.length + 1 := by
    rw [asked, length_append, length_singleton]
  refine ⟨counted, listed, ?_, ?_, ?_, ?_, ?_⟩
  · rw [more, ← sound.length]
    exact changed.length.trans (length_append ..)
  · rw [more]
    intro request member
    obtain old | added := mem_append.mp member
    · rw [changed.pending] at old
      exact Nat.lt_succ_of_lt (sound.pending request old)
    · rw [own request added]
      exact Nat.lt_succ_self _
  · rw [more]
    intro answer member
    change answer ∈ middle.answered at member
    rw [changed.answered] at member
    exact Nat.lt_succ_of_lt (sound.answered answer member)
  · rw [more]
    exact changed.calls_bounded (Nat.lt_succ_self _) fun call member =>
      Nat.lt_succ_of_lt (sound.calls call member)
  · intro lookup other there
    rw [asked] at there
    by_cases inside : lookup < world.asked.length
    · rw [getElem?_append_left inside] at there
      have different : lookup ≠ world.asked.length := Nat.ne_of_lt inside
      have before : Apart lookup world (started world key) := by
        refine ⟨?_, rfl, rfl, rfl, Grows.of_same rfl rfl⟩
        change ((world.userdata ++ [none])[lookup]?).join = _
        rw [getElem?_append_left (by rw [sound.length]; exact inside)]
        rfl
      have after : Apart lookup middle (sends middle sent) := by
        refine ⟨rfl, ?_, rfl, rfl, Grows.of_same rfl rfl⟩
        rw [mine_sends, filter_eq_nil_iff.mpr, append_nil]
        intro request member
        rw [decide_eq_true_iff, own request member]
        exact Ne.symm different
      have whole := (sound.faithful lookup other there).apart sound.listed before
      exact (whole.apart sound.listed (changed.apart different)).apart listed after
    · rw [getElem?_append_right (Nat.le_of_not_lt inside)] at there
      obtain same : lookup = world.asked.length := by
        have bound := (List.getElem?_eq_some_iff.mp there).1
        rw [length_singleton] at bound
        omega
      subst same
      rw [Nat.sub_self] at there
      cases there
      exact faithful

theorem started_bare (sound : Sound world) (key : JabberCapsTuple) :
    mine (started world key) world.asked.length = [] ∧
      heard (started world key) world.asked.length = [] ∧
      told (started world key) world.asked.length = [] ∧
      (started world key).userdata[world.asked.length]? = some none := by
  refine ⟨?_, ?_, ?_, ?_⟩
  · apply filter_eq_nil_iff.mpr
    intro request member
    rw [decide_eq_true_iff]
    exact Nat.ne_of_lt (sound.pending request member)
  · apply filter_eq_nil_iff.mpr
    intro answer member
    rw [decide_eq_true_iff]
    exact Nat.ne_of_lt (sound.answered answer member)
  · rw [told, filter_eq_nil_iff.mpr]
    · rfl
    · intro call member
      rw [decide_eq_true_iff]
      exact Nat.ne_of_lt (sound.calls call member)
  · rw [← sound.length]
    exact getElem?_concat_length

theorem not_refused_nil : ¬ ClientRefused key [] := by
  rintro ⟨outcome, impossible, _⟩
  cases impossible

theorem getInfo_known (sound : Sound world) (info : Nat)
    (found : find key world.capstable = some info) :
    Sound ((started world key).tell world.asked.length (some info) []) := by
  obtain ⟨noMine, noHeard, noTold, slot⟩ := started_bare sound key
  have changed := changed_tell (started world key) world.asked.length (some info) []
  have counted : CountedWith ((started world key).tell world.asked.length (some info) []) [] :=
    started_counted sound.counted key
  have same : sends ((started world key).tell world.asked.length (some info) []) [] =
      (started world key).tell world.asked.length (some info) [] := by
    rw [sends, append_nil]
  have toldOnce := changed.told
  rw [noTold, nil_append] at toldOnce
  rw [← same]
  refine sound_of_started sound changed counted sound.listed (forall_mem_nil _) ?_
  rw [same]
  unfold Faithful
  rw [World.user]
  have kept : ((started world key).tell world.asked.length (some info) []).userdata =
      (started world key).userdata := rfl
  rw [kept, slot]
  refine ⟨noMine, .complete ?_ ?_ info found toldOnce⟩
  · change ¬ ClientRefused key (heard (started world key) world.asked.length)
    rw [noHeard]
    exact not_refused_nil
  · change extsFailed (heard (started world key) world.asked.length) = 0
    rw [noHeard]
    rfl

def begun (key : JabberCapsTuple) (info : Option Nat) : UserData :=
  { ref := if info.isSome then 0 else 1, node := some key.node, ver := some key.ver
    hash := key.hash, info, exts := [], extOutstanding := 0, nodeExts := none }

def asking (key : JabberCapsTuple) (info : Option Nat) (asked all : List Bytes)
    (held : Option Nat) : UserData :=
  { begun key info with
    ref := (begun key info).ref + asked.length
    extOutstanding := (begun key info).extOutstanding + asked.length
    exts := all, nodeExts := held }

def firstSent (info : Option Nat) (lookup : Nat) : List Request :=
  if info.isSome then [] else [.client lookup]

theorem firstSent_own {info : Option Nat} (member : request ∈ firstSent info lookup) :
    request = .client lookup := by
  rw [firstSent] at member
  split at member
  · cases member
  · exact mem_singleton.mp member

theorem extsIn_map (asked : List Bytes) (lookup : Nat) :
    extsIn (asked.map (.ext lookup)) = asked.length := by
  rw [extsIn, countP_map]
  exact countP_eq_length.mpr fun _ _ => rfl

theorem clientsIn_map (asked : List Bytes) (lookup : Nat) :
    clientsIn (asked.map (.ext lookup)) = 0 := by
  rw [clientsIn, countP_map]
  apply countP_eq_zero.mpr
  intro _ _ impossible
  cases impossible

theorem unheard_accepted (unheard : heard world lookup = []) :
    ¬ ClientRefused key (heard world lookup) ∧ extsFailed (heard world lookup) = 0 := by
  rw [unheard]
  exact ⟨not_refused_nil, rfl⟩

theorem asking_live {info : Option Nat} {asked all : List Bytes} {held : Option Nat}
    (mineNext : mine next lookup = firstSent info lookup ++ asked.map (.ext lookup))
    (unheard : heard next lookup = []) (untold : told next lookup = [])
    (entry : ∀ value, info = some value → find key next.capstable = some value)
    (named : ∀ name ∈ asked, name ∈ all)
    (holds : asked ≠ [] → key.hash = none ∧ (info = none → held ≠ none))
    (busy : ¬ (info.isSome ∧ asked.length = 0)) :
    Live next lookup key (asking key info asked all held) := by
  have outstanding : (asking key info asked all held).extOutstanding = asked.length :=
    Nat.zero_add _
  have names : ∀ name, .ext lookup name ∈ mine next lookup → name ∈ all := by
    rw [mineNext]
    intro name member
    obtain inFirst | inExts := mem_append.mp member
    · cases firstSent_own inFirst
    · obtain ⟨other, there, same⟩ := List.mem_map.mp inExts
      cases same
      exact named _ there
  have sentExts := extsIn_map asked lookup
  have sentClients := clientsIn_map asked lookup
  cases info with
  | none =>
    have refOne : (asking key none asked all held).ref = 1 + asked.length := rfl
    refine ⟨?_, by omega, ?_, names, ?_⟩
    · rw [mineNext, refOne, length_append, length_map]
      rfl
    · rw [mineNext, unheard, outstanding, extsIn, countP_append]
      change _ = 0 + extsIn (asked.map (.ext lookup)) + 0
      omega
    · refine .waiting ?_ rfl (unheard ▸ rfl) untold rfl rfl rfl ?_
      · rw [mineNext, clientsIn, countP_append]
        change 1 + clientsIn (asked.map (.ext lookup)) = 1
        omega
      · intro positive
        rw [outstanding] at positive
        obtain ⟨unhashed, holding⟩ := holds (ne_nil_of_length_pos positive)
        exact ⟨unhashed, holding rfl⟩
  | some value =>
    have refNone : (asking key (some value) asked all held).ref = asked.length := Nat.zero_add _
    have positive : 0 < asked.length := Nat.pos_of_ne_zero fun none' => busy ⟨rfl, none'⟩
    change mine next lookup = asked.map (.ext lookup) at mineNext
    refine ⟨?_, by omega, ?_, names, ?_⟩
    · rw [mineNext, refNone, length_map]
    · rw [mineNext, unheard, outstanding, sentExts]
      rfl
    · refine .known ?_ value rfl (entry value rfl) (unheard_accepted unheard).1 untold
        (by omega) (fun _ _ _ => rfl)
      rw [mineNext]
      exact sentClients

theorem asking_counted (slot : world.userdata[lookup]? = some none) {held : Option Nat}
    (counted : CountedWith world held.toList) (user : UserData) (holds : user.nodeExts = held) :
    CountedWith (world.putUser lookup (some user)) [] := by
  refine putUser_counted slot _ (fun at' => ?_) counted
  change 0 + held.toList.count at' = one (user.nodeExts = some at') + 0
  rw [count_toList, holds, Nat.zero_add]
  rfl

theorem getInfo_sound (sound : Sound world) (key : JabberCapsTuple) (exts : Option (List Bytes)) :
    ∃ next, jabberCapsGetInfo world key exts = some next ∧ Sound next := by
  rw [jabberCapsGetInfo]
  by_cases ready : (find key world.capstable).isSome ∧ key.hash.isSome
  · simp only [if_pos ready]
    obtain ⟨info, found⟩ := isSome_iff_exists.mp ready.1
    rw [found]
    exact ⟨_, rfl, getInfo_known sound info found⟩
  simp only [if_neg ready]
  let lookup := world.asked.length
  let info := find key world.capstable
  obtain ⟨noMine, noHeard, noTold, slot⟩ := started_bare sound key
  obtain ⟨next, held, all, asked, asks, changed, same, fine, listed, named, holds⟩ :=
    @sendExts_sent (started world key) (begun key info) key (started_counted sound.counted key)
      sound.listed rfl (fun _ informed => informed) lookup key.node (firstSent info lookup)
      (if key.hash.isSome then none else exts)
  change ∃ last, (sendExts (started world key) lookup key.node (begun key info)
    (firstSent info lookup) _).bind _ = some last ∧ _
  rw [asks, bind_some]
  have slotNext : next.userdata[lookup]? = some none := same.symm ▸ slot
  have bound : lookup < next.userdata.length := (List.getElem?_eq_some_iff.mp slotNext).1
  let user := asking key info asked all held
  by_cases complete : info.isSome ∧ user.extOutstanding = 0
  · -- nothing is sent, and the callback is called at once
    obtain ⟨value, found⟩ := isSome_iff_exists.mp complete.1
    obtain ⟨last, finishes, ended, left, fineLast, listedLast⟩ :=
      @finish_changed _ lookup { user with ref := 1 } (user_putUser bound _) Nat.one_pos
        (asking_counted slotNext fine _ rfl) listed true
    have whole := (changed.trans (changed_putUser next lookup _)).trans ended
    refine ⟨last, ?_, ?_⟩
    · change (if info.isSome ∧ user.extOutstanding = 0 then _ else _) = _
      rw [if_pos complete]
      exact finishes
    · have same' : sends last [] = last := by rw [sends, append_nil]
      rw [← same']
      refine sound_of_started sound whole fineLast listedLast (forall_mem_nil _) ?_
      rw [same']
      obtain ⟨accepted, answered⟩ := @unheard_accepted last lookup key (whole.heard.trans noHeard)
      refine faithful_of_answer left rfl (whole.mine.trans noMine)
        (.complete accepted answered value (whole.grows.entries key value found) ?_)
      rw [whole.told, noTold]
      change [info] = _
      rw [found]
  · let sent := firstSent info lookup ++ asked.map (.ext lookup)
    have whole := changed.trans (changed_putUser next lookup (some user))
    refine ⟨sends (next.putUser lookup (some user)) sent, ?_, ?_⟩
    · change (if info.isSome ∧ user.extOutstanding = 0 then _ else _) = _
      rw [if_neg complete]
      rfl
    have own : ∀ request ∈ sent, request.lookup = lookup := by
      intro request member
      obtain inFirst | inExts := mem_append.mp member
      · rw [firstSent_own inFirst]
        rfl
      · obtain ⟨name, _, rfl⟩ := List.mem_map.mp inExts
        rfl
    refine sound_of_started sound whole (asking_counted slotNext fine _ rfl) listed own ?_
    have live : Live (sends (next.putUser lookup (some user)) sent) lookup key user := by
      refine asking_live ?_ (whole.heard.trans noHeard) (whole.told.trans ((append_nil _).trans noTold)) ?_ named
        ?_ ?_
      · rw [mine_sends, whole.mine, noMine, nil_append]
        exact filter_eq_self.mpr fun request member => decide_eq_true (own request member)
      · exact fun value found => whole.grows.entries key value found
      · intro some'
        obtain ⟨given, holding⟩ := holds some'
        refine ⟨?_, holding⟩
        cases hash : key.hash with
        | none => rfl
        | some value =>
          rw [hash] at given
          exact absurd rfl given
      · rintro ⟨informed, none'⟩
        exact complete ⟨informed, (Nat.zero_add _).trans none'⟩
    unfold Faithful
    rw [show (sends (next.putUser lookup (some user)) sent).user lookup = some user from
      user_putUser bound _]
    exact live

/-! ### Runs -/

theorem sound_of_reply (sound : Sound world) (outcome : Option Query)
    (inside : request.lookup < world.asked.length)
    (changed : Changed request.lookup new (taken world request outcome) next)
    (counted : CountedWith next []) (listed : Listed next)
    (faithful : ∀ key, world.asked[request.lookup]? = some key →
      Faithful next request.lookup key) : Sound next := by
  have asked : next.asked = world.asked := changed.asked
  refine ⟨counted, listed, ?_, ?_, ?_, ?_, ?_⟩
  · rw [asked, changed.length]
    exact sound.length
  · rw [asked, changed.pending]
    exact fun other member => sound.pending other (mem_of_mem_erase member)
  · rw [asked, changed.answered]
    intro answer member
    obtain old | added := mem_append.mp member
    · exact sound.answered answer old
    · rw [mem_singleton.mp added]
      exact inside
  · rw [asked]
    exact changed.calls_bounded inside sound.calls
  · rw [asked]
    intro lookup key there
    by_cases same : lookup = request.lookup
    · subst same
      exact faithful key there
    · exact ((sound.faithful lookup key there).apart sound.listed (taken_apart same)).apart
        sound.listed (changed.apart same)

theorem live_of_pending (sound : Sound world) (member : request ∈ world.pending)
    (there : world.asked[request.lookup]? = some key) :
    ∃ user, world.user request.lookup = some user ∧ Live world request.lookup key user := by
  have faithful := sound.faithful _ _ there
  unfold Faithful at faithful
  cases found : world.user request.lookup with
  | some user =>
    rw [found] at faithful
    exact ⟨user, rfl, faithful⟩
  | none =>
    rw [found] at faithful
    have here := mine_of_pending member
    rw [faithful.1] at here
    cases here

theorem step_sound (sound : Sound world) (event : Event) :
    ∃ next, step world event = some next ∧ Sound next := by
  cases event with
  | getInfo key exts => exact getInfo_sound sound key exts
  | reply request outcome =>
    rw [step]
    by_cases member : request ∈ world.pending
    · rw [if_pos member]
      have inside := sound.pending request member
      have there := getElem?_eq_getElem inside
      obtain ⟨user, found, live⟩ := live_of_pending sound member there
      have here := mine_of_pending member
      have onlyKey {next : World}
          (faithful : Faithful next request.lookup world.asked[request.lookup]) (key)
          (asks : world.asked[request.lookup]? = some key) :
          Faithful next request.lookup key := by
        rw [there] at asks
        cases asks
        exact faithful
      cases request with
      | client lookup =>
        obtain ⟨next, new, runs, changed, faithful, counted, listed⟩ :=
          client_keeps live found here outcome sound.counted sound.listed
        exact ⟨next, runs, sound_of_reply sound outcome inside changed counted listed
          (onlyKey faithful)⟩
      | ext lookup name =>
        obtain ⟨next, new, runs, changed, faithful, counted, listed⟩ :=
          ext_keeps live found here outcome sound.counted sound.listed
        exact ⟨next, runs, sound_of_reply sound outcome inside changed counted listed
          (onlyKey faithful)⟩
    · rw [if_neg member]
      exact ⟨world, rfl, sound⟩

structure Tables (world : World) : Prop where
  counted : CountedWith world []
  listed : Listed world
  userdata : world.userdata = []
  asked : world.asked = []
  pending : world.pending = []
  answered : world.answered = []
  calls : world.calls = []

theorem Tables.sound (tables : Tables world) : Sound world where
  counted := tables.counted
  listed := tables.listed
  length := by rw [tables.userdata, tables.asked]; rfl
  pending := by rw [tables.pending]; exact forall_mem_nil _
  answered := by rw [tables.answered]; exact forall_mem_nil _
  calls := by rw [tables.calls]; exact forall_mem_nil _
  faithful lookup key there := by
    rw [tables.asked] at there
    cases there

theorem run_sound (tables : Tables world) (events : List Event) :
    ∃ last, run step world events = some last ∧ Sound last :=
  reached Sound (fun _ event sound _ => step_sound sound event) tables.sound
    (admitted_always events) (prefix_refl events)

/-- The callback of a lookup: told at most once, and of nothing but NULL or the entry. -/
structure Completion (world : World) (lookup : Nat) (key : JabberCapsTuple) : Prop where
  infos : ∀ info ∈ told world lookup, info = none ∨ info = find key world.capstable
  once : (told world lookup).length ≤ 1
  released : world.user lookup = none ↔ mine world lookup = []
  answered : mine world lookup = [] →
    ((told world lookup).length = 1 ↔
      ClientRefused key (heard world lookup) ∨ extsFailed (heard world lookup) = 0)

theorem Answer.completion (answer : Answer world lookup key) (freed : world.user lookup = none)
    (empty : mine world lookup = []) : Completion world lookup key := by
  have ended : world.user lookup = none ↔ mine world lookup = [] := iff_of_true freed empty
  cases answer with
  | refused refused calls =>
    refine ⟨?_, by rw [calls]; exact Nat.le_refl 1, ended, fun _ => ?_⟩
    · rw [calls]
      exact fun info member => .inl (mem_singleton.mp member)
    · rw [calls]
      exact iff_of_true rfl (.inl refused)
  | failed accepted failed calls =>
    refine ⟨?_, by rw [calls]; exact Nat.zero_le 1, ended, fun _ => ?_⟩
    · rw [calls]
      exact forall_mem_nil _
    · rw [calls]
      refine iff_of_false Nat.zero_ne_one ?_
      rintro (refused | none')
      · exact accepted refused
      · omega
  | complete accepted answered info listed calls =>
    refine ⟨?_, by rw [calls]; exact Nat.le_refl 1, ended, fun _ => ?_⟩
    · rw [calls]
      intro other member
      rw [mem_singleton.mp member, listed]
      exact .inr rfl
    · rw [calls]
      exact iff_of_true rfl (.inr answered)

theorem Live.completion (live : Live world lookup key user) (found : world.user lookup = some user) :
    Completion world lookup key := by
  have busy : mine world lookup ≠ [] := by
    intro empty
    have positive := live.positive
    rw [live.refs, empty] at positive
    exact Nat.lt_irrefl 0 positive
  have kept : world.user lookup = none ↔ mine world lookup = [] :=
    iff_of_false (by rw [found]; exact some_ne_none user) busy
  have unended : mine world lookup = [] →
      ((told world lookup).length = 1 ↔
        ClientRefused key (heard world lookup) ∨ extsFailed (heard world lookup) = 0) :=
    fun empty => absurd empty busy
  have silent (calls : told world lookup = []) : Completion world lookup key := by
    refine ⟨?_, ?_, kept, unended⟩
    · rw [calls]
      exact forall_mem_nil _
    · rw [calls]
      exact Nat.zero_le 1
  cases live.stage with
  | waiting clients uninformed unanswered calls => exact silent calls
  | known clients info informed listed accepted calls => exact silent calls
  | refused clients uninformed refused calls =>
    refine ⟨?_, ?_, kept, unended⟩
    · rw [calls]
      exact fun info member => .inl (mem_singleton.mp member)
    · rw [calls]
      exact Nat.le_refl 1

theorem lookups_complete {world : World} (tables : Tables world) (events : List Event) :
    ∃ last, run step world events = some last ∧ CountedWith last [] ∧
      ∀ lookup key, last.asked[lookup]? = some key → Completion last lookup key := by
  obtain ⟨last, ran, sound⟩ := run_sound tables events
  refine ⟨last, ran, sound.counted, fun lookup key there => ?_⟩
  have faithful := sound.faithful lookup key there
  unfold Faithful at faithful
  cases found : last.user lookup with
  | some user =>
    rw [found] at faithful
    exact faithful.completion found
  | none =>
    rw [found] at faithful
    exact faithful.2.completion found faithful.1

def noTables : World := ⟨[], [], [], [], [], [], [], [], []⟩

theorem noTables_tables : Tables noTables :=
  ⟨fun _ => rfl, fun _ _ impossible => (nomatch impossible), rfl, rfl, rfl, rfl, rfl⟩

def tkabber : JabberCapsTuple := ⟨ascii "http://tkabber.jabber.ru/", ascii "0.11", none⟩

def emptyQuery : Query := ⟨none, none, []⟩

def failingExt : List Event :=
  [.getInfo tkabber (some [ascii "ftrans"]), .reply (.client 0) (some emptyQuery),
    .reply (.ext 0 (ascii "ftrans")) none]

theorem tkabber_completes : ∃ last, run step noTables failingExt = some last ∧
    CountedWith last [] ∧
      ∀ lookup key, last.asked[lookup]? = some key → Completion last lookup key :=
  lookups_complete noTables_tables failingExt

/-- All is answered, and the callback was not called. -/
theorem failingExt_uncalled : Tables noTables ∧ ∃ last, run step noTables failingExt = some last ∧
    last.asked = [tkabber] ∧ last.pending = [] ∧ last.calls = [] :=
  ⟨noTables_tables, _, rfl, rfl, by decide, rfl⟩

end Purple.Jabber.Caps
