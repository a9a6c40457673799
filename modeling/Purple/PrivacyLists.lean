/-
What adding, removing, emptying and filling do to the entries of the lists.
-/

import Purple.Privacy

namespace Purple.Privacy

open List Memory

def entries (account : PurpleAccount) (side : Side) : List Text := data (account.list side)

/-- The representation is sound: links are told apart by their addresses, entries
have been normalized, and buddies have names. -/
structure Sound (normalize : Text → Text) (account : PurpleAccount) : Prop where
  unique : ∀ side, (addresses (account.list side)).Nodup
  fresh : ∀ side, ∀ link ∈ account.list side, link.address < account.fresh
  normal : ∀ side, ∀ name ∈ entries account side, normalize name = name
  named : ∀ name ∈ account.buddies, name ≠ []

structure Frame (side : Side) (before after : PurpleAccount) : Prop where
  permDeny : after.permDeny = before.permDeny
  buddies : after.buddies = before.buddies
  other : ∀ another, another ≠ side → after.list another = before.list another

variable {side : Side} {names : List Text} {who : Text} {rest : List (Link Text)}

theorem frame_refl (side : Side) (account : PurpleAccount) : Frame side account account :=
  ⟨rfl, rfl, fun _ _ => rfl⟩

theorem frame_trans {first middle last : PurpleAccount} (early : Frame side first middle)
    (late : Frame side middle last) : Frame side first last :=
  ⟨late.permDeny.trans early.permDeny, late.buddies.trans early.buddies,
    fun another different => (late.other another different).trans (early.other another different)⟩

theorem frame_entries {before after : PurpleAccount} (frame : Frame side before after)
    {another : Side} (different : another ≠ side) :
    entries after another = entries before another :=
  congrArg data (frame.other another different)

variable {normalize : Text → Text} {account : PurpleAccount}

@[simp] theorem setList_same (links : List (Link Text)) (side : Side) :
    (account.setList links side).list side = links := by
  cases side <;> rfl

theorem setList_other (links : List (Link Text)) {another : Side} (different : another ≠ side) :
    (account.setList links side).list another = account.list another := by
  cases side <;> cases another <;> first | rfl | exact absurd rfl different

@[simp] theorem setList_permDeny (links : List (Link Text)) (side : Side) :
    (account.setList links side).permDeny = account.permDeny := by
  cases side <;> rfl

@[simp] theorem setList_buddies (links : List (Link Text)) (side : Side) :
    (account.setList links side).buddies = account.buddies := by
  cases side <;> rfl

structure Rewritten (before after : PurpleAccount) : Prop where
  permDeny : after.permDeny = before.permDeny
  lists : ∀ side, after.list side = before.list side
  buddies : after.buddies = before.buddies
  fresh : after.fresh = before.fresh

theorem rewritten_normalize (account : PurpleAccount) (name : Text) :
    Rewritten account (purpleNormalize normalize account name) :=
  ⟨rfl, fun side => by cases side <;> rfl, rfl, rfl⟩

theorem rewritten_find (account : PurpleAccount) (name : Text) :
    Rewritten account (purpleFindBuddy normalize account name).2 := by
  unfold purpleFindBuddy
  split
  · exact ⟨rfl, fun _ => rfl, rfl, rfl⟩
  · exact rewritten_normalize account name

theorem rewritten_entries {after : PurpleAccount} (rewritten : Rewritten account after)
    (side : Side) : entries after side = entries account side :=
  congrArg data (rewritten.lists side)

theorem rewritten_frame {after : PurpleAccount} (rewritten : Rewritten account after)
    (side : Side) : Frame side account after :=
  ⟨rewritten.permDeny, rewritten.buddies, fun another _ => rewritten.lists another⟩

theorem sound_lists {after : PurpleAccount} (sound : Sound normalize account)
    (lists : ∀ side, after.list side = account.list side) (fresh : after.fresh = account.fresh)
    (named : ∀ name ∈ after.buddies, name ≠ []) : Sound normalize after := by
  refine ⟨?_, ?_, ?_, named⟩
  · intro side
    rw [lists]
    exact sound.unique side
  · intro side
    rw [lists, fresh]
    exact sound.fresh side
  · intro side
    rw [entries, lists]
    exact sound.normal side

theorem rewritten_sound {after : PurpleAccount} (sound : Sound normalize account)
    (rewritten : Rewritten account after) : Sound normalize after := by
  refine sound_lists sound rewritten.lists rewritten.fresh ?_
  rw [rewritten.buddies]
  exact sound.named

theorem rewritten_trans {middle last : PurpleAccount} (early : Rewritten account middle)
    (late : Rewritten middle last) : Rewritten account last :=
  ⟨late.permDeny.trans early.permDeny, fun side => (late.lists side).trans (early.lists side),
    late.buddies.trans early.buddies, late.fresh.trans early.fresh⟩

/-- The buffer makes no difference to a list that is set, and to the looking up
of a buddy behind that. -/
theorem rewritten_set (who name : Text) (links : List (Link Text)) (side : Side) (fresh : Nat) :
    Rewritten { account.setList links side with fresh }
      (purpleFindBuddy normalize
        { (purpleNormalize normalize account who).setList links side with fresh } name).2 := by
  refine rewritten_trans ?_ (rewritten_find _ _)
  cases side <;> exact ⟨rfl, fun another => by cases another <;> rfl, rfl, rfl⟩

def Buddied (normalize : Text → Text) (buddies : List Text) (name : Text) : Prop :=
  name ≠ [] ∧ ∃ buddy ∈ buddies, normalize buddy = normalize name

instance (buddies : List Text) (name : Text) : Decidable (Buddied normalize buddies name) :=
  inferInstanceAs (Decidable (name ≠ [] ∧ ∃ buddy ∈ buddies, normalize buddy = normalize name))

theorem find_iff {name : Text} :
    (purpleFindBuddy normalize account name).1 = true ↔
      Buddied normalize account.buddies name := by
  unfold purpleFindBuddy Buddied
  by_cases empty : name = [] <;> simp [empty]

/-! ### Adding -/

def addEntry (names : List Text) (name : Text) : List Text :=
  if name ∈ names then names else names ++ [name]

theorem mem_addEntry {name other : Text} :
    other ∈ addEntry names name ↔ other ∈ names ∨ other = name := by
  unfold addEntry
  split
  · refine ⟨.inl, fun either => either.elim id ?_⟩
    rintro rfl
    assumption
  · rw [mem_append, mem_singleton]

theorem addEntry_nodup (nodup : names.Nodup) (name : Text) : (addEntry names name).Nodup := by
  unfold addEntry
  split
  · exact nodup
  · rw [nodup_append]
    refine ⟨nodup, nodup_singleton name, ?_⟩
    rintro other member last here rfl
    rw [mem_singleton.mp here] at member
    contradiction

theorem listed_iff {name : Text} :
    (account.list side).any (fun link => link.datum = name) = true ↔
      name ∈ entries account side := by
  rw [List.any_eq_true, entries, data, List.mem_map]
  simp only [decide_eq_true_eq]

theorem sound_setList (sound : Sound normalize account) {side : Side} {links : List (Link Text)}
    {fresh : Nat} (later : account.fresh ≤ fresh) (unique : (addresses links).Nodup)
    (below : ∀ link ∈ links, link.address < fresh)
    (normal : ∀ name ∈ data links, normalize name = name) :
    Sound normalize { account.setList links side with fresh } := by
  constructor
  · intro another
    by_cases same : another = side
    · subst same
      change (addresses ((account.setList links another).list another)).Nodup
      rw [setList_same]
      exact unique
    · change (addresses ((account.setList links side).list another)).Nodup
      rw [setList_other links same]
      exact sound.unique another
  · intro another
    by_cases same : another = side
    · subst same
      change ∀ link ∈ (account.setList links another).list another, link.address < fresh
      rw [setList_same]
      exact below
    · change ∀ link ∈ (account.setList links side).list another, link.address < fresh
      rw [setList_other links same]
      exact fun link member => Nat.lt_of_lt_of_le (sound.fresh another link member) later
  · intro another
    by_cases same : another = side
    · subst same
      change ∀ name ∈ data ((account.setList links another).list another), normalize name = name
      rw [setList_same]
      exact normal
    · change ∀ name ∈ data ((account.setList links side).list another), normalize name = name
      rw [setList_other links same]
      exact sound.normal another
  · change ∀ name ∈ (account.setList links side).buddies, name ≠ []
    rw [setList_buddies]
    exact sound.named

theorem add_old (listed : normalize who ∈ entries account side) :
    privacyAdd normalize side account who = (false, purpleNormalize normalize account who) := by
  have rewritten := @rewritten_normalize normalize account who
  rw [← rewritten_entries rewritten side] at listed
  exact if_pos (listed_iff.mpr listed)

theorem add_new (absent : normalize who ∉ entries account side) :
    Rewritten
      { account.setList
          (account.list side ++ [{ address := account.fresh, datum := normalize who }]) side with
        fresh := account.fresh + 1 }
      (privacyAdd normalize side account who).2 := by
  have rewritten := @rewritten_normalize normalize account who
  rw [← rewritten_entries rewritten side, ← listed_iff] at absent
  have added : privacyAdd normalize side account who = (true, _) := if_neg absent
  rw [added]
  cases side <;> exact rewritten_set who _ _ _ _

theorem add_entries (idempotent : ∀ name, normalize (normalize name) = normalize name)
    (sound : Sound normalize account) (side : Side) (who : Text) :
    Sound normalize (privacyAdd normalize side account who).2 ∧
      Frame side account (privacyAdd normalize side account who).2 ∧
      entries (privacyAdd normalize side account who).2 side =
        addEntry (entries account side) (normalize who) := by
  unfold addEntry
  by_cases listed : normalize who ∈ entries account side
  · rw [if_pos listed, add_old listed]
    have rewritten := @rewritten_normalize normalize account who
    exact ⟨rewritten_sound sound rewritten, rewritten_frame rewritten side,
      rewritten_entries rewritten side⟩
  · rw [if_neg listed]
    have rewritten := add_new listed
    refine ⟨rewritten_sound ?_ rewritten, frame_trans ?_ (rewritten_frame rewritten side), ?_⟩
    · refine sound_setList sound (Nat.le_succ _) ?_ ?_ ?_
      · rw [addresses, map_append, nodup_append]
        refine ⟨sound.unique side, nodup_singleton _, ?_⟩
        intro address member last here same
        obtain ⟨link, inList, rfl⟩ := List.mem_map.mp member
        rw [mem_singleton.mp here] at same
        exact Nat.ne_of_lt (sound.fresh side link inList) same
      · intro link member
        rcases mem_append.mp member with old | new
        · exact Nat.lt_succ_of_lt (sound.fresh side link old)
        · rw [mem_singleton.mp new]
          exact Nat.lt_succ_self _
      · intro name member
        rw [data, map_append] at member
        rcases mem_append.mp member with old | new
        · exact sound.normal side name old
        · rw [mem_singleton.mp new]
          exact idempotent who
    · exact ⟨setList_permDeny _ side, setList_buddies _ side,
        fun another different => setList_other _ different⟩
    · rw [rewritten_entries rewritten]
      change data ((account.setList _ side).list side) = _
      rw [setList_same, data, map_append]
      rfl

/-! ### Removing -/

theorem remove_absent (absent : normalize who ∉ entries account side) :
    privacyRemove normalize side account who = (false, purpleNormalize normalize account who) := by
  have notFound : ((purpleNormalize normalize account who).list side).find?
      (fun link => link.datum = (purpleNormalize normalize account who).normalized) = none := by
    rw [(rewritten_normalize account who).lists, find?_eq_none]
    intro link member same
    refine absent ?_
    rw [← show link.datum = normalize who from of_decide_eq_true same]
    exact List.mem_map_of_mem member
  unfold privacyRemove
  simp only [notFound]

theorem remove_front (idempotent : ∀ name, normalize (normalize name) = normalize name)
    (sound : Sound normalize account) {front : List (Link Text)}
    (split : account.list side = front ++ rest) (listed : normalize who ∈ data front) :
    ∃ kept, data kept = (data front).erase (normalize who) ∧ kept.Sublist front ∧
      Rewritten (account.setList (kept ++ rest) side) (privacyRemove normalize side account who).2 ∧
      (privacyRemove normalize side account who).2.normalized = normalize who := by
  obtain ⟨first, isFirst⟩ : ∃ first, front.find? (fun link => link.datum = normalize who) =
      some first := by
    rw [← Option.isSome_iff_exists, find?_isSome]
    obtain ⟨link, member, named⟩ := List.mem_map.mp listed
    exact ⟨link, member, decide_eq_true named⟩
  obtain ⟨named, before, behind, isFront, others⟩ := find?_eq_some_iff_append.mp isFirst
  have isName : first.datum = normalize who := of_decide_eq_true named
  have lists := (@rewritten_normalize normalize account who).lists side
  have found : ((purpleNormalize normalize account who).list side).find?
      (fun link => link.datum = (purpleNormalize normalize account who).normalized) =
      some first := by
    rw [lists, split, find?_append]
    change (front.find? fun link => decide (link.datum = normalize who)).or _ = _
    rw [isFirst, Option.some_or]
  have unique := sound.unique side
  rw [split, isFront, append_assoc, cons_append] at unique
  have unlinked : unlink ((purpleNormalize normalize account who).list side) first.address =
      before ++ behind ++ rest := by
    rw [lists, split, isFront, append_assoc, cons_append, unlink_append unique,
      append_assoc]
  refine ⟨before ++ behind, ?_, ?_, ?_, ?_⟩
  · have notBefore : normalize who ∉ before.map Link.datum := by
      intro member
      obtain ⟨link, inBefore, same⟩ := List.mem_map.mp member
      have different := others link inBefore
      simp [same] at different
    rw [isFront, data, data, map_append, map_append, map_cons, isName,
      erase_append_right _ notBefore, erase_cons_head]
  · rw [isFront]
    exact (sublist_cons_self first behind).append_left before
  · unfold privacyRemove
    simp only [found, unlinked]
    have written := @rewritten_set normalize account who (normalize who)
      (before ++ behind ++ rest) side account.fresh
    cases side <;> exact written
  · unfold privacyRemove
    simp only [found, unlinked]
    unfold purpleFindBuddy
    split
    · cases side <;> rfl
    · exact idempotent who

theorem remove_kept (sound : Sound normalize account) {front kept : List (Link Text)}
    (split : account.list side = front ++ rest) (within : kept.Sublist front)
    {after : PurpleAccount} (rewritten : Rewritten (account.setList (kept ++ rest) side) after) :
    Sound normalize after ∧ Frame side account after ∧ after.list side = kept ++ rest := by
  have sublist : (kept ++ rest).Sublist (account.list side) := by
    rw [split]
    exact within.append_right rest
  have set : Sound normalize (account.setList (kept ++ rest) side) := by
    have sounds := @sound_setList normalize account sound side (kept ++ rest) account.fresh
      (Nat.le_refl _) ((sublist.map Link.address).nodup (sound.unique side))
      (fun link member => sound.fresh side link (sublist.subset member))
      (fun name member => sound.normal side name ((sublist.map Link.datum).subset member))
    cases side <;> exact sounds
  refine ⟨rewritten_sound set rewritten, frame_trans ?_ (rewritten_frame rewritten side), ?_⟩
  · exact ⟨setList_permDeny _ side, setList_buddies _ side,
      fun another different => setList_other _ different⟩
  · rw [rewritten.lists, setList_same]

theorem remove_entries (idempotent : ∀ name, normalize (normalize name) = normalize name)
    (sound : Sound normalize account) (side : Side) (who : Text) :
    Sound normalize (privacyRemove normalize side account who).2 ∧
      Frame side account (privacyRemove normalize side account who).2 ∧
      entries (privacyRemove normalize side account who).2 side =
        (entries account side).erase (normalize who) := by
  by_cases listed : normalize who ∈ entries account side
  · have whole : account.list side = account.list side ++ [] := (append_nil _).symm
    obtain ⟨kept, names, within, rewritten, -⟩ := remove_front idempotent sound whole listed
    obtain ⟨removedSound, frame, list⟩ := remove_kept sound whole within rewritten
    refine ⟨removedSound, frame, ?_⟩
    rw [entries, list, append_nil, names]
    rfl
  · rw [remove_absent listed, erase_of_not_mem listed]
    have rewritten := @rewritten_normalize normalize account who
    exact ⟨rewritten_sound sound rewritten, rewritten_frame rewritten side,
      rewritten_entries rewritten side⟩

/-! ### Emptying -/

def repeats : Text → List Text → List Text
  | _, [] => []
  | previous, name :: rest =>
    if previous = name then name :: repeats name rest else repeats name rest

theorem mem_repeats {name previous : Text} :
    name ∈ repeats previous names ↔
      (previous = name ∧ names.head? = some name) ∨ [name, name] <:+: names := by
  induction names generalizing previous with
  | nil => simp [repeats]
  | cons first rest ih =>
    rw [repeats, infix_cons_iff, head?_cons, Option.some_inj]
    have pair : [name, name] <+: first :: rest ↔ first = name ∧ rest.head? = some name := by
      cases rest with
      | nil => simp
      | cons second rest => simp [cons_prefix_cons, eq_comm]
    rw [pair]
    split
    · rename_i same
      rw [mem_cons, ih, same]
      tauto
    · rename_i different
      rw [ih]
      constructor
      · exact .inr
      · rintro (⟨rfl, rfl⟩ | later)
        · exact absurd rfl different
        · exact later

theorem mem_erase_last (names : List Text) (last name : Text) :
    name ∈ (names ++ [last]).erase last ↔ name ∈ names := by
  by_cases listed : last ∈ names
  · rw [erase_append_left _ listed, mem_append, mem_singleton]
    by_cases same : name = last
    · rw [same]
      exact ⟨fun _ => listed, fun _ => .inr rfl⟩
    · rw [mem_erase_of_ne same]
      exact ⟨fun either => either.resolve_right same, .inl⟩
  · rw [erase_append_right _ listed, erase_cons_head, append_nil]

/-- What the loop keeps: the links before the current one, the buffer with the
name of the link before, and the entries that will be left. -/
structure Emptying (normalize : Text → Text) (side : Side) (before : PurpleAccount) (who : Text)
    (rest : List (Link Text)) (account : PurpleAccount) : Prop where
  sound : Sound normalize account
  frame : Frame side before account
  sublist : (account.list side).Sublist (before.list side)
  kept : ∃ front, account.list side = front ++ rest ∧
    ∀ name, (name ∈ data front ∨ name ∈ repeats account.normalized (data rest)) ↔
      name ∈ repeats who (entries before side)

theorem emptyRound_keeps (idempotent : ∀ name, normalize (normalize name) = normalize name)
    {before : PurpleAccount} {link : Link Text}
    (emptying : Emptying normalize side before who (link :: rest) account) :
    Emptying normalize side before who rest (emptyRound normalize side account link.datum) := by
  obtain ⟨sound, frame, sublist, front, split, left⟩ := emptying
  have split' : account.list side = (front ++ [link]) ++ rest := by
    rw [split, append_assoc, singleton_append]
  have normal : normalize link.datum = link.datum := by
    refine sound.normal side link.datum (List.mem_map_of_mem ?_)
    rw [split]
    exact mem_append_right _ mem_cons_self
  unfold emptyRound
  by_cases same : account.normalized = link.datum
  · rw [if_pos same]
    refine ⟨sound, frame, sublist, front ++ [link], split', ?_⟩
    intro name
    have before := left name
    simp only [data, map_cons, repeats, if_pos same, mem_cons] at before
    simp only [data, map_append, mem_append, map_cons, map_nil,
      mem_singleton, same]
    rw [← before, or_assoc]
  · rw [if_neg same]
    have listed : normalize link.datum ∈ data (front ++ [link]) := by
      rw [normal]
      exact List.mem_map_of_mem (mem_append_right _ mem_cons_self)
    obtain ⟨kept, names, within, rewritten, buffer⟩ := remove_front idempotent sound split' listed
    obtain ⟨removedSound, removedFrame, list⟩ := remove_kept sound split' within rewritten
    rw [normal] at names buffer
    refine ⟨removedSound, frame_trans frame removedFrame, ?_, kept, list, ?_⟩
    · rw [list]
      refine List.Sublist.trans ?_ sublist
      rw [split']
      exact within.append_right rest
    · intro name
      have before := left name
      simp only [data, map_cons, repeats, if_neg same] at before
      have erased : name ∈ (data (front ++ [link])).erase link.datum ↔ name ∈ data front := by
        rw [data_append]
        exact mem_erase_last (data front) link.datum name
      rw [buffer, names, ← before, erased]
      rfl

theorem emptyList_entries (idempotent : ∀ name, normalize (normalize name) = normalize name)
    (sound : Sound normalize account) (side : Side) (who : Text) :
    ∃ emptied, emptyList normalize side account who = some emptied ∧ Sound normalize emptied ∧
      Frame side account emptied ∧ (entries emptied side).Sublist (entries account side) ∧
      ∀ name, name ∈ entries emptied side ↔
        name ∈ repeats (normalize who) (entries account side) := by
  have rewritten := @rewritten_normalize normalize account who
  have lists := rewritten.lists side
  have start : Emptying normalize side account (normalize who)
      ((purpleNormalize normalize account who).list side) (purpleNormalize normalize account who) := by
    refine ⟨rewritten_sound sound rewritten, rewritten_frame rewritten side, ?_, [], rfl, ?_⟩
    · rw [lists]
    · intro name
      rw [lists]
      exact ⟨fun either => either.resolve_left not_mem_nil, .inr⟩
  obtain ⟨emptied, walked, final⟩ := walk_rule (Emptying normalize side account (normalize who))
    (fun rest account emptying => by
      obtain ⟨front, split, -⟩ := emptying.kept
      exact ⟨front, split.symm⟩)
    (fun rest account emptying => emptying.sound.unique side)
    (fun link rest account emptying => emptyRound_keeps idempotent emptying)
    start (Nat.lt_succ_self _)
  refine ⟨emptied, walked, final.sound, final.frame, final.sublist.map Link.datum, ?_⟩
  obtain ⟨front, split, left⟩ := final.kept
  intro name
  rw [← left name, entries, split, append_nil]
  exact ⟨.inl, fun either => either.resolve_right not_mem_nil⟩

/-! ### The buddies and only the buddies -/

def buddiesAmong (normalize : Text → Text) (buddies names : List Text) : List Text :=
  names.filter fun name => Buddied normalize buddies name

structure Sifting (normalize : Text → Text) (before : PurpleAccount) (rest : List (Link Text))
    (account : PurpleAccount) : Prop where
  sound : Sound normalize account
  frame : Frame .permit before account
  kept : ∃ front, account.list .permit = front ++ rest ∧
    data front ++ buddiesAmong normalize before.buddies (data rest) =
      buddiesAmong normalize before.buddies (entries before .permit)

theorem strangerRound_keeps (idempotent : ∀ name, normalize (normalize name) = normalize name)
    {before : PurpleAccount} {link : Link Text}
    (sifting : Sifting normalize before (link :: rest) account) :
    Sifting normalize before rest (strangerRound normalize account link.datum) := by
  obtain ⟨sound, frame, front, split, left⟩ := sifting
  have split' : account.list .permit = (front ++ [link]) ++ rest := by
    rw [split, append_assoc, singleton_append]
  have rewritten := @rewritten_find normalize account link.datum
  have found := @find_iff normalize account link.datum
  rw [frame.buddies] at found
  unfold strangerRound
  by_cases buddied : Buddied normalize before.buddies link.datum
  · simp only [found.mpr buddied, if_true]
    refine ⟨rewritten_sound sound rewritten, frame_trans frame (rewritten_frame rewritten _),
      front ++ [link], (rewritten.lists _).trans split', ?_⟩
    rw [← left, data_cons, buddiesAmong, buddiesAmong,
      filter_cons_of_pos (by simpa using buddied), data_append, append_assoc]
    rfl
  · have notFound : (purpleFindBuddy normalize account link.datum).1 = false :=
      Bool.eq_false_iff.mpr (mt found.mp buddied)
    simp only [notFound, Bool.false_eq_true, if_false]
    have normal : normalize link.datum = link.datum := by
      refine sound.normal .permit link.datum (List.mem_map_of_mem ?_)
      rw [split]
      exact mem_append_right _ mem_cons_self
    have listed : normalize link.datum ∈ data (front ++ [link]) := by
      rw [normal]
      exact List.mem_map_of_mem (mem_append_right _ mem_cons_self)
    have stranger : link.datum ∉ data front := by
      intro member
      have among : link.datum ∈ buddiesAmong normalize before.buddies (entries before .permit) := by
        rw [← left]
        exact mem_append_left _ member
      exact buddied (of_decide_eq_true (mem_filter.mp among).2)
    have soundFound := rewritten_sound sound rewritten
    have splitFound := (rewritten.lists .permit).trans split'
    obtain ⟨kept, names, within, removed, -⟩ :=
      remove_front idempotent soundFound splitFound listed
    obtain ⟨removedSound, removedFrame, list⟩ := remove_kept soundFound splitFound within removed
    refine ⟨removedSound,
      frame_trans frame (frame_trans (rewritten_frame rewritten _) removedFrame), kept, list, ?_⟩
    rw [names, normal, data_append, erase_append_right _ stranger, data_cons, data_nil,
      erase_cons_head, append_nil, ← left, data_cons, buddiesAmong, buddiesAmong,
      filter_cons_of_neg (by simpa using buddied)]

theorem strangers_entries (idempotent : ∀ name, normalize (normalize name) = normalize name)
    (sound : Sound normalize account) :
    ∃ sifted, walkList .permit (strangerRound normalize) account = some sifted ∧
      Sound normalize sifted ∧ Frame .permit account sifted ∧
      entries sifted .permit =
        buddiesAmong normalize account.buddies (entries account .permit) := by
  have start : Sifting normalize account (account.list .permit) account :=
    ⟨sound, frame_refl _ _, [], rfl, rfl⟩
  obtain ⟨sifted, walked, final⟩ := walk_rule (Sifting normalize account)
    (fun rest account sifting => by
      obtain ⟨front, split, -⟩ := sifting.kept
      exact ⟨front, split.symm⟩)
    (fun rest account sifting => sifting.sound.unique .permit)
    (fun link rest account sifting => strangerRound_keeps idempotent sifting)
    start (Nat.lt_succ_self _)
  refine ⟨sifted, walked, final.sound, final.frame, ?_⟩
  obtain ⟨front, split, left⟩ := final.kept
  rw [entries, split, append_nil, ← left]
  exact (append_nil _).symm

variable {collate : Text → Text → Bool}

def permitted (normalize : Text → Text) (collate : Text → Text → Bool) :
    List Text → List Text → List Text
  | [], names => names
  | buddy :: rest, names =>
    if names.any fun name => collate name buddy then permitted normalize collate rest names
    else permitted normalize collate rest (addEntry names (normalize buddy))

theorem permitBuddies_entries (idempotent : ∀ name, normalize (normalize name) = normalize name)
    (sound : Sound normalize account) (buddies : List Text) :
    Sound normalize (permitBuddies normalize collate buddies account) ∧
      Frame .permit account (permitBuddies normalize collate buddies account) ∧
      entries (permitBuddies normalize collate buddies account) .permit =
        permitted normalize collate buddies (entries account .permit) := by
  induction buddies generalizing account with
  | nil => exact ⟨sound, frame_refl _ _, rfl⟩
  | cons buddy rest ih =>
    have collates : (account.permit.any fun link => collate link.datum buddy) =
        (entries account .permit).any fun name => collate name buddy := by
      rw [entries, data, List.any_map]
      rfl
    unfold permitBuddies permitted
    rw [collates]
    split
    · exact ih sound
    · obtain ⟨addedSound, addedFrame, added⟩ := add_entries idempotent sound .permit buddy
      obtain ⟨lastSound, lastFrame, last⟩ := ih addedSound
      refine ⟨lastSound, frame_trans addedFrame lastFrame, ?_⟩
      exact last.trans (congrArg (permitted normalize collate rest) added)

theorem addAllBuddies_entries (idempotent : ∀ name, normalize (normalize name) = normalize name)
    (sound : Sound normalize account) :
    ∃ filled, addAllBuddiesToPermitList normalize collate account = some filled ∧
      Sound normalize filled ∧ Frame .permit account filled ∧
      entries filled .permit = permitted normalize collate account.buddies
        (buddiesAmong normalize account.buddies (entries account .permit)) := by
  obtain ⟨sifted, walked, siftedSound, siftedFrame, among⟩ := strangers_entries idempotent sound
  obtain ⟨filledSound, filledFrame, filled⟩ :=
    @permitBuddies_entries normalize sifted collate idempotent siftedSound sifted.buddies
  refine ⟨_, ?_, filledSound, frame_trans siftedFrame filledFrame, ?_⟩
  · rw [addAllBuddiesToPermitList, walked]
    rfl
  · rw [filled, among, siftedFrame.buddies]

end Purple.Privacy
