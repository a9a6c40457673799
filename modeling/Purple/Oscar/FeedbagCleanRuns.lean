/-
The two loops of cleaning the local list, with the syncs in between, and what they leave.
-/

import Purple.Oscar.FeedbagCleanProgress

namespace Purple.Oscar

open List Option

section Bare

variable {list : List SsiNode} {cur : SsiNode}

theorem named_bare (list : List SsiNode) : named (list.map bare) = (named list).map bare := by
  rw [named, named, List.filter_map]
  rfl

theorem isOrphan_bare (list : List SsiNode) (cur : SsiNode) :
    isOrphan (list.map bare) (bare cur) = isOrphan list cur := by
  rw [Bool.eq_iff_iff, isOrphan_iff, isOrphan_iff, find_bare, map_eq_none_iff]
  rfl

theorem orphansGid_bare (list : List SsiNode) : orphansGid (list.map bare) = orphansGid list := by
  have taken : groupTaken (list.map bare) = groupTaken list := funext (groupTaken_bare list)
  rw [orphansGid, orphansGid, finditem_bare, find_bare, isNone_map, taken]
  cases aimSsiItemlistFinditem list (some orphans) none typeGroup <;> rfl

theorem hasGroup_bare (gid : UInt16) : HasGroup (list.map bare) gid ↔ HasGroup list gid := by
  constructor
  · rintro ⟨_, member, isGroup, isGid, isBid⟩
    obtain ⟨cur, isCur, rfl⟩ := List.mem_map.mp member
    exact ⟨cur, isCur, isGroup, isGid, isBid⟩
  · rintro ⟨cur, member, isGroup, isGid, isBid⟩
    exact ⟨bare cur, List.mem_map_of_mem member, isGroup, isGid, isBid⟩

theorem housed_bare : Housed (list.map bare) (bare cur) ↔ Housed list cur := by
  constructor
  · intro housed
    exact ⟨housed.buddy, housed.named, housed.notRoot, (hasGroup_bare _).mp housed.group⟩
  · intro housed
    exact ⟨housed.buddy, housed.named, housed.notRoot, (hasGroup_bare _).mpr housed.group⟩

theorem Fitting.bare (fitting : Fitting list) : Fitting (list.map bare) where
  sorted := pairwise_map.mpr fitting.sorted
  honest := by
    rw [named_bare]
    simp only [List.forall_mem_map]
    intro cur member isBuddy notRoot other isOther same zero
    exact (hasGroup_bare _).mpr
      (fitting.honest cur member isBuddy notRoot other isOther same zero)
  orphans := by
    rw [named_bare]
    simp only [List.forall_mem_map, isOrphan_bare]
    intro cur member orphan
    have fits := fitting.orphans cur member orphan
    exact {
      ahead := by
        rw [named_bare, orphansGid_bare]
        exact fits.ahead
      notRoot := by
        rw [named_bare, orphansGid_bare]
        exact fits.notRoot
      room := by
        rw [named_bare, orphansGid_bare, List.filter_map, length_map]
        simp only [Function.comp_def, isOrphan_bare]
        exact fits.room
      first := by
        rw [named_bare]
        intro moves other member housed smaller name isName
        obtain ⟨other, isOther, rfl⟩ := List.mem_map.mp member
        refine fits.first ?_ other isOther (housed_bare.mp housed) smaller name isName
        obtain lower | first := moves
        · rw [orphansGid_bare] at lower
          exact Or.inl lower
        · apply Or.inr
          intro front rest split earlier isEarlier
          rw [← isOrphan_bare]
          apply first (front.map Oscar.bare) (rest.map Oscar.bare)
          · rw [split, map_append, map_cons]
          · exact List.mem_map_of_mem isEarlier }

theorem finditem_of_bare {gn bn : Option Bytes} {type : UInt16} {del : SsiNode}
    (found : aimSsiItemlistFinditem (list.map bare) gn bn type = some del) :
    ∃ cur, aimSsiItemlistFinditem list gn bn type = some cur ∧ bare cur = del := by
  rw [finditem_bare] at found
  exact map_eq_some_iff.mp found

end Bare

/-! ### Rounds -/

structure Cleaning (base : List SsiNode) (od : OscarData) (rest : List SsiNode) : Prop where
  progress : Progress base (od.localList.map bare) rest
  ready : Ready od
  light : ∀ cur ∈ od.official ++ od.localList, Light cur

section Rounds

variable (malloc : Malloc) {base rest : List SsiNode} {od : OscarData} {cur : SsiNode}

theorem edit_synced (ready : Ready od) (light : ∀ cur ∈ od.official ++ od.localList, Light cur)
    {edited : List SsiNode} (separate : Separate edited) (lightEdited : ∀ cur ∈ edited, Light cur) :
    ∃ after, aimSsiSync malloc { od with localList := edited } = some after ∧
      after.localList = edited ∧ after.official = od.official ∧ Ready after ∧
      ∀ cur ∈ after.official ++ after.localList, Light cur := by
  have whole : ∀ cur ∈ od.official ++ edited, Light cur := by
    intro cur member
    obtain inOfficial | inEdited := mem_append.mp member
    · exact light cur (mem_append_left _ inOfficial)
    · exact lightEdited cur inEdited
  have editReady : Ready { od with localList := edited } := ⟨ready.official, separate, ready.idle⟩
  obtain ⟨after, synced⟩ := editReady.sync_ends malloc whole
  obtain ⟨isLocal, official, -⟩ := aimSsiSync_keeps synced
  refine ⟨after, synced, isLocal, official, (ready.synced separate synced).ready ready, ?_⟩
  rw [isLocal, official]
  exact whole

theorem Progress.finds_nameless {list : List SsiNode} (progress : Progress base list (cur :: rest))
    (nameless : isNameless cur = true) :
    aimSsiItemlistFinditem list none none cur.item.type = some cur := by
  obtain ⟨unnamed, deletes⟩ := of_decide_eq_true nameless
  obtain ⟨front, rfl⟩ := progress.suffix
  have none : front.find? (fun other => other.item.type = cur.item.type ∧
      other.item.name = none) = none := by
    apply find?_eq_none.mpr
    intro other early matched
    obtain ⟨sameType, otherUnnamed⟩ := of_decide_eq_true matched
    have otherNameless : isNameless other = true := by
      apply decide_eq_true
      rw [sameType]
      exact ⟨otherUnnamed, deletes⟩
    exact progress.separate.apart early
      (progress.waits other (mem_append_left _ early) (Or.inl otherNameless))
  have here : (cur :: rest).find? (fun other => other.item.type = cur.item.type ∧
      other.item.name = Option.none) = some cur :=
    find?_cons_of_pos (decide_eq_true ⟨rfl, unnamed⟩)
  rw [aimSsiItemlistFinditem, find?_append, none, here]
  rfl

theorem Cleaning.dropped (cleaning : Cleaning base od (bare cur :: rest))
    (nameless : isNameless cur = true) {edited : List SsiNode}
    (isEdited : edited.map bare = aimSsiItemlistDel (od.localList.map bare) cur.address)
    (separate : Separate edited) (lightEdited : ∀ cur ∈ edited, Light cur) :
    ∃ after, aimSsiSync malloc { od with localList := edited } = some after ∧
      Cleaning base after rest ∧
      work base (after.localList.map bare) rest <
        work base (od.localList.map bare) (bare cur :: rest) := by
  obtain ⟨after, synced, isLocal, -, ready, light⟩ :=
    edit_synced malloc cleaning.ready cleaning.light separate lightEdited
  have progress := cleaning.progress.dropped nameless
  have member := cleaning.progress.suffix.subset mem_cons_self
  have bareNameless : isNameless (bare cur) = true := nameless
  have same := findgroup_del cleaning.progress.separate member (nameless_notGroup bareNameless)
    orphans
  refine ⟨after, synced, ⟨?_, ready, light⟩, ?_⟩
  · rw [isLocal, isEdited]
    exact progress
  · have fewer := ((sublist_cons_self (bare cur) rest).filter (isEarly base)).length_le
    rw [isLocal, isEdited, work, work, length_cons]
    have sameAfter : aimSsiItemlistFinditem (aimSsiItemlistDel (od.localList.map bare) cur.address)
        (some orphans) none typeGroup =
        aimSsiItemlistFinditem (od.localList.map bare) (some orphans) none typeGroup := same
    rw [sameAfter]
    omega

theorem Cleaning.nameless_round (cleaning : Cleaning base od (bare cur :: rest))
    (nameless : isNameless cur = true) :
    ∃ after, cleanItem malloc od cur = some after ∧ Cleaning base after rest ∧
      work base (after.localList.map bare) rest <
        work base (od.localList.map bare) (bare cur :: rest) := by
  obtain ⟨unnamed, deletes⟩ := of_decide_eq_true nameless
  have bareNameless : isNameless (bare cur) = true := nameless
  obtain ⟨del, found, isDel⟩ :=
    finditem_of_bare (cleaning.progress.finds_nameless bareNameless)
  have sameAddress : (bare del).address = (bare cur).address := by rw [isDel]
  change del.address = cur.address at sameAddress
  have separate := cleaning.ready.edits.deleted del.address
  have light : ∀ cur ∈ od.localList, Light cur :=
    fun cur member => cleaning.light cur (mem_append_right _ member)
  have lightDeleted := light_deleted light del.address
  have isEdited := del_bare od.localList del.address
  rw [sameAddress] at isEdited
  rw [cleanItem, unnamed]
  dsimp only
  by_cases isBuddy : cur.item.type = typeBuddy
  · have foundBuddy : aimSsiItemlistFinditem od.localList none none typeBuddy = some del := by
      rw [← isBuddy]
      exact found
    obtain ⟨after, synced, next, less⟩ := @Cleaning.dropped malloc base rest od cur cleaning nameless
      (aimSsiItemlistRebuildgroup (aimSsiItemlistDel od.localList del.address) none)
      (by rw [rebuildgroup_bare, sameAddress]; exact isEdited) (separate.rebuilt none)
      (light_rebuilt lightDeleted none)
    refine ⟨after, ?_, next, less⟩
    rw [if_pos isBuddy, aimSsiDelbuddy, delbuddyList, foundBuddy]
    exact synced
  · obtain ⟨after, synced, next, less⟩ := @Cleaning.dropped malloc base rest od cur cleaning
      nameless (aimSsiItemlistDel od.localList del.address)
      (by rw [sameAddress]; exact isEdited) separate lightDeleted
    refine ⟨after, ?_, next, less⟩
    have isFound : aimSsiItemlistFinditem od.localList none none cur.item.type = some del := found
    rw [if_neg isBuddy, if_pos (deletes.resolve_left isBuddy), aimSsiDelFromPrivateList,
      delFromPrivateList, isFound]
    exact synced

theorem alias_small (nickname : Option Bytes) :
    (tlvsBytes (buddyData [] nickname none none false)).length ≤ 2 ^ 29 := by
  cases nickname with
  | none => exact Nat.zero_le _
  | some value =>
    have fits := (createtlv 0x0131 (UInt16.ofNat value.length) value).fits
    change (tlvsBytes [createtlv 0x0131 (UInt16.ofNat value.length) value]).length ≤ 2 ^ 29
    rw [tlvsBytes_cons, tlvsBytes_nil, append_nil, tlvBytes_length]
    omega

theorem Cleaning.added (cleaning : Cleaning base od (bare cur :: rest)) (fitting : Fitting base)
    (orphan : isOrphan od.localList cur = true) (name : Bytes) (data : List AimTlv) :
    ∃ after fresh groups, addbuddyList malloc od.official od.localList name orphans data =
        some after ∧
      Added (od.localList.map bare) (after.map bare) name (goalGid base) fresh groups := by
  have progress := cleaning.progress
  have bareOrphan := orphan
  rw [← isOrphan_bare] at bareOrphan
  have there : bare cur ∈ od.localList.map bare := progress.suffix.subset mem_cons_self
  obtain ⟨inNamed, orphanBase⟩ := progress.orphan_base fitting there bareOrphan
  have notRoot : goalGid base ≠ 0 := (fitting.orphans _ inNamed orphanBase).notRoot
  have ids := progress.idsLeft fitting bareOrphan
  rw [inGroup_bare] at ids
  cases found : aimSsiItemlistFinditem od.localList (some orphans) none typeGroup with
  | some parent =>
    have bareFound : aimSsiItemlistFinditem (od.localList.map bare) (some orphans) none typeGroup =
        some (bare parent) := by
      rw [finditem_bare, found]
      rfl
    have sameGid := progress.parent _ bareFound
    change parent.item.gid = goalGid base at sameGid
    rw [if_neg (by rw [bareFound]; nofun), ← sameGid] at ids
    rw [← sameGid] at notRoot ⊢
    obtain ⟨after, fresh, adds, added⟩ :=
      @addbuddyList_there malloc od.official od.localList parent found notRoot ids name data
    exact ⟨after, fresh, [], adds, added⟩
  | none =>
    have bareMissing : aimSsiItemlistFinditem (od.localList.map bare) (some orphans) none
        typeGroup = none := by
      rw [finditem_bare, found]
      rfl
    rw [if_pos bareMissing] at ids
    have searched := progress.searched fitting bareOrphan bareMissing
    have taken : groupTaken (od.localList.map bare) = groupTaken od.localList :=
      funext (groupTaken_bare od.localList)
    rw [find_bare, isNone_map, taken] at searched
    exact addbuddyList_made notRoot found searched ids name data

theorem Cleaning.orphan_round (cleaning : Cleaning base od (bare cur :: rest))
    (fitting : Fitting base) {name : Bytes} (isName : cur.item.name = some name)
    (orphan : isOrphan od.localList cur = true) :
    ∃ after ahead, cleanItem malloc od cur = some after ∧ Cleaning base after ahead ∧
      ahead.head? = rest.head? ∧
      work base (after.localList.map bare) ahead <
        work base (od.localList.map bare) (bare cur :: rest) := by
  have light : ∀ cur ∈ od.localList, Light cur :=
    fun cur member => cleaning.light cur (mem_append_right _ member)
  have small := alias_small (aimSsiGetalias od.localList none (some name))
  obtain ⟨longer, fresh, groups, adds, added⟩ := cleaning.added malloc fitting orphan name
    (buddyData [] (aimSsiGetalias od.localList none (some name)) none none false)
  obtain ⟨middle, addSynced, middleLocal, -, middleReady, middleLight⟩ :=
    edit_synced malloc cleaning.ready cleaning.light (cleaning.ready.edits.addbuddy adds)
      (light_addbuddy light small adds)
  have bareOrphan := orphan
  rw [← isOrphan_bare] at bareOrphan
  have bareName : (bare cur).item.name = some name := isName
  obtain ⟨bareDel, ahead, bareFound, progress, head, less⟩ :=
    cleaning.progress.moved fitting bareOrphan bareName added
  obtain ⟨del, found, isDel⟩ := finditem_of_bare bareFound
  have sameAddress : (bare del).address = bareDel.address := by rw [isDel]
  change del.address = bareDel.address at sameAddress
  have longerLight : ∀ cur ∈ longer, Light cur := by
    rw [← middleLocal]
    exact fun cur member => middleLight cur (mem_append_right _ member)
  have longerSeparate : Separate longer := by
    rw [← middleLocal]
    exact middleReady.edits
  obtain ⟨after, delSynced, afterLocal, -, afterReady, afterLight⟩ :=
    edit_synced malloc middleReady middleLight
      ((longerSeparate.deleted del.address).rebuilt none)
      (light_rebuilt (light_deleted longerLight del.address) none)
  have isEdited : after.localList.map bare =
      aimSsiItemlistDel (longer.map bare) bareDel.address := by
    rw [afterLocal, rebuildgroup_bare, del_bare, sameAddress]
  refine ⟨after, ahead, ?_, ⟨?_, afterReady, afterLight⟩, head, ?_⟩
  · have added : aimSsiAddbuddy malloc od (some name) (some orphans) []
        (aimSsiGetalias od.localList none (some name)) none none false = some middle := by
      rw [aimSsiAddbuddy, adds]
      exact addSynced
    rw [cleanItem, isName]
    dsimp only
    rw [if_pos orphan, added, bind_some, aimSsiDelbuddy, middleLocal, delbuddyList, found]
    exact delSynced
  · rw [isEdited]
    exact progress
  · rw [isEdited]
    exact less

theorem Cleaning.round (cleaning : Cleaning base od (bare cur :: rest)) (fitting : Fitting base) :
    ∃ after ahead, cleanItem malloc od cur = some after ∧ Cleaning base after ahead ∧
      ahead.head? = rest.head? ∧
      work base (after.localList.map bare) ahead <
        work base (od.localList.map bare) (bare cur :: rest) := by
  by_cases nameless : isNameless cur = true
  · obtain ⟨after, cleaned, next, less⟩ := cleaning.nameless_round malloc nameless
    exact ⟨after, rest, cleaned, next, rfl, less⟩
  by_cases orphan : isOrphan od.localList cur = true
  · obtain ⟨isBuddy, isNamed, -⟩ := (isOrphan_iff _ cur).mp orphan
    obtain ⟨name, isName⟩ := ne_none_iff_exists'.mp isNamed
    exact cleaning.orphan_round malloc fitting isName orphan
  have bareOrphan : isOrphan (od.localList.map bare) (bare cur) = false := by
    rw [isOrphan_bare]
    exact Bool.eq_false_iff.mpr orphan
  have progress := cleaning.progress.passed (Bool.eq_false_iff.mpr nameless) bareOrphan
  have fewer := ((sublist_cons_self (bare cur) rest).filter (isEarly base)).length_le
  refine ⟨od, rest, ?_, ⟨progress, cleaning.ready, cleaning.light⟩, rfl, ?_⟩
  · rw [cleanItem]
    cases isName : cur.item.name with
    | some name =>
      dsimp only
      rw [if_neg orphan]
    | none =>
      dsimp only
      rw [isNameless, decide_eq_true_eq, not_and, not_or] at nameless
      obtain ⟨notBuddy, notPrivate⟩ := nameless isName
      rw [if_neg notBuddy, if_neg notPrivate]
  · rw [work, work, length_cons]
    omega

theorem cleanRounds_ends (fitting : Fitting base) {rounds : Nat}
    (cleaning : Cleaning base od rest) (enough : work base (od.localList.map bare) rest ≤ rounds) :
    ∃ after, cleanRounds malloc rounds od (rest.head?.map SsiNode.address) = some after ∧
      Cleaning base after [] := by
  induction rounds generalizing od rest with
  | zero =>
    cases rest with
    | nil => exact ⟨od, rfl, cleaning⟩
    | cons cur rest =>
      rw [work, length_cons] at enough
      omega
  | succ rounds ih =>
    cases rest with
    | nil => exact ⟨od, rfl, cleaning⟩
    | cons next rest =>
      obtain ⟨front, isList⟩ := cleaning.progress.suffix
      have member : next ∈ od.localList.map bare :=
        cleaning.progress.suffix.subset mem_cons_self
      obtain ⟨cur, isCur, rfl⟩ := List.mem_map.mp member
      have read : nodeAt od.localList cur.address = some cur := by
        cases found : nodeAt od.localList cur.address with
        | none =>
          have fails := find?_eq_none.mp found cur isCur
          exact absurd (decide_eq_true rfl) fails
        | some other =>
          have holds := find?_some found
          rw [cleaning.ready.edits.unique (mem_of_find?_eq_some found) isCur
            (of_decide_eq_true holds)]
      obtain ⟨after, ahead, cleaned, next, head, less⟩ := cleaning.round malloc fitting
      obtain ⟨final, ran, ends⟩ := ih next (by omega)
      refine ⟨final, ?_, ends⟩
      have behind : Memory.after (addressesOf od.localList) cur.address =
          ahead.head?.map SsiNode.address := by
        have nodup : (addressesOf od.localList).Nodup := cleaning.ready.edits
        have addresses : addressesOf od.localList =
            front.map SsiNode.address ++ cur.address :: rest.map SsiNode.address := by
          rw [addressesOf, ← addresses_bare, ← isList, map_append, map_cons]
          rfl
        rw [addresses] at nodup ⊢
        rw [Memory.after_append nodup, head, head?_map]
      change (nodeAt od.localList cur.address).bind (fun node =>
        (cleanItem malloc od node).bind fun after => cleanRounds malloc rounds after
          (Memory.after (addressesOf od.localList) cur.address)) = some final
      rw [read, bind_some, cleaned, bind_some, behind]
      exact ran

end Rounds

theorem withoutDuplicates_sublist (list : List SsiNode) : (withoutDuplicates list).Sublist list := by
  induction list using withoutDuplicates.induct with
  | case1 =>
    rw [withoutDuplicates]
  | case2 cur rest ih =>
    rw [withoutDuplicates]
    exact (ih.trans (deleteDuplicates_sublist cur rest)).cons_cons cur

theorem mem_deleteDuplicates {cur other : SsiNode} {rest : List SsiNode} (member : other ∈ rest)
    (single : isDuplicate cur other = false) : other ∈ deleteDuplicates cur rest := by
  rw [deleteDuplicates]
  split
  · apply mem_filter.mpr
    rw [single]
    exact ⟨member, rfl⟩
  · exact member

theorem group_withoutDuplicates {list : List SsiNode} {cur : SsiNode} (member : cur ∈ list)
    (isGroup : cur.item.type = typeGroup) : cur ∈ withoutDuplicates list := by
  induction list using withoutDuplicates.induct with
  | case1 => cases member
  | case2 head rest ih =>
    rw [withoutDuplicates]
    obtain rfl | later := mem_cons.mp member
    · exact mem_cons_self
    apply mem_cons_of_mem
    by_cases single : isDuplicate head cur = false
    · exact ih (mem_deleteDuplicates later single)
    -- no duplicates of groups are looked for
    apply ih
    rw [Bool.not_eq_false] at single
    have sameType := (of_decide_eq_true single).1
    rw [isGroup] at sameType
    rw [deleteDuplicates, sameType, if_neg (by decide)]
    exact later

theorem buddy_withoutDuplicates {list : List SsiNode} {cur : SsiNode} (member : cur ∈ list)
    (isBuddy : cur.item.type = typeBuddy) {name : Bytes} (isName : cur.item.name = some name) :
    ∃ other ∈ withoutDuplicates list, other.item.type = typeBuddy ∧
      other.item.gid = cur.item.gid ∧ other.hasName name = true := by
  induction list using withoutDuplicates.induct with
  | case1 => cases member
  | case2 head rest ih =>
    rw [withoutDuplicates]
    obtain rfl | later := mem_cons.mp member
    · exact ⟨cur, mem_cons_self, isBuddy, rfl, (hasName_iff cur name).mpr ⟨name, isName, rfl⟩⟩
    by_cases duplicate : isDuplicate head cur = true
    · obtain ⟨sameType, sameGid, headNamed, -, compares⟩ := of_decide_eq_true duplicate
      refine ⟨head, mem_cons_self, sameType.trans isBuddy, sameGid, ?_⟩
      obtain ⟨own, isOwn⟩ := ne_none_iff_exists'.mp headNamed
      rw [isOwn, isName] at compares
      apply (hasName_iff head name).mpr
      exact ⟨own, isOwn, (nameCompareLoop_zero_iff own name).mp compares⟩
    · obtain ⟨other, isOther, others⟩ :=
        ih (mem_deleteDuplicates later (Bool.eq_false_iff.mpr duplicate))
      exact ⟨other, mem_cons_of_mem _ isOther, others⟩

/-! ### Both loops -/

/-- The list is cleaned in 4 rounds for each item, and 3 more for what is made. -/
theorem aimSsiCleanlist_cleans (malloc : Malloc) {od : OscarData} (cleanable : Cleanable od)
    {rounds : Nat} (enough : 4 * od.localList.length + 3 ≤ rounds) :
    ∃ after, aimSsiCleanlist malloc rounds od = some after ∧
      Cleaned od.localList after.localList := by
  have fitting := cleanable.fitting.bare
  have separate : Separate (od.localList.map bare) := by
    rw [Separate, addresses_bare]
    exact cleanable.ready.edits
  have start : Cleaning (od.localList.map bare) od (od.localList.map bare) :=
    ⟨Progress.start fitting separate, cleanable.ready, cleanable.light⟩
  have few : work (od.localList.map bare) (od.localList.map bare) (od.localList.map bare) ≤
      rounds := by
    have most := length_filter_le (isEarly (od.localList.map bare)) (od.localList.map bare)
    rw [length_map] at most
    rw [work, length_map]
    split <;> omega
  obtain ⟨middle, ran, cleaning⟩ := cleanRounds_ends malloc fitting start few
  have head : (od.localList.map bare).head?.map SsiNode.address =
      (addressesOf od.localList).head? := by
    rw [← head?_map, addresses_bare]
    rfl
  have part := withoutDuplicates_sublist middle.localList
  obtain ⟨after, synced, isLocal, -⟩ := edit_synced malloc cleaning.ready cleaning.light
    (cleaning.ready.edits.sublist part)
    fun cur member => cleaning.light cur (mem_append_right _ (part.subset member))
  refine ⟨after, ?_, ?_⟩
  · rw [aimSsiCleanlist, ← head, ran]
    exact synced
  rw [isLocal]
  have groups : ∀ gid, HasGroup middle.localList gid →
      HasGroup (withoutDuplicates middle.localList) gid := by
    rintro gid ⟨cur, member, isGroup, isGid, isBid⟩
    exact ⟨cur, group_withoutDuplicates member isGroup, isGroup, isGid, isBid⟩
  constructor
  · intro cur member isBuddy
    have bareMember := List.mem_map_of_mem (f := bare) (part.subset member)
    have housed := housed_bare.mp (cleaning.progress.housed fitting bareMember isBuddy)
    exact ⟨isBuddy, housed.named, housed.notRoot, groups _ housed.group⟩
  · intro cur member housed name isName
    have bareHoused := housed_bare.mpr housed
    have kept := cleaning.progress.kept (bare cur) (List.mem_map_of_mem member) (Or.inr bareHoused)
    obtain ⟨other, isOther, same⟩ := List.mem_map.mp kept
    have sameItem : (bare other).item = (bare cur).item := by rw [same]
    obtain ⟨sameName, sameGid, -, sameType, -⟩ := AimSsiItem.mk.inj sameItem
    have result := @buddy_withoutDuplicates middle.localList other isOther
      (sameType.trans housed.buddy) name (sameName.trans isName)
    rw [sameGid] at result
    exact result

/-- Two lists alike, of a group with a buddy, and of another buddy by the same name in a group
that is missing. -/
def strayList : OscarData where
  official :=
    [newNode 11 none 0 0 typeGroup [], newNode 12 (some [70]) 1 0 typeGroup [],
      newNode 13 (some [98]) 1 1 typeBuddy [], newNode 14 (some [98]) 5 1 typeBuddy []]
  localList :=
    [newNode 1 none 0 0 typeGroup [], newNode 2 (some [70]) 1 0 typeGroup [],
      newNode 3 (some [98]) 1 1 typeBuddy [], newNode 4 (some [98]) 5 1 typeBuddy []]
  pending := []
  waitingForAck := false
  receivedData := true
  sent := []

def rootList : OscarData where
  official := []
  localList :=
    [newNode 1 none 0 0 typeGroup [], newNode 2 (some [97]) 0 1 typeBuddy [],
      newNode 3 (some [70]) 1 0 typeGroup [], newNode 4 none 1 1 typeBuddy [],
      newNode 5 (some [98]) 1 2 typeBuddy []]
  pending := []
  waitingForAck := false
  receivedData := true
  sent := []

theorem rootList_cleanable : Cleanable rootList where
  ready := {
    official := by
      rw [Separate]
      decide
    edits := by
      rw [Separate]
      decide
    idle := fun _ => rfl }
  light := by
    simp only [Light]
    decide
  fitting := {
    sorted := by
      rw [Sorted]
      decide
    honest := by
      intro cur member isBuddy notRoot other isOther same zero
      have places : ∀ cur ∈ named rootList.localList, cur.item.type = typeBuddy →
          cur.item.gid ≠ 0 → cur.item.gid = 1 := by decide
      rw [places cur member isBuddy notRoot]
      exact ⟨newNode 3 (some [70]) 1 0 typeGroup [], by decide, rfl, rfl, rfl⟩
    orphans := by
      intro cur member orphan
      have only : ∀ cur ∈ named rootList.localList,
          isOrphan (named rootList.localList) cur = true → cur.item.gid = 0 := by decide
      have inRoot := only cur member orphan
      exact {
        ahead := by
          rw [inRoot]
          exact UInt16.zero_le
        notRoot := by decide +kernel
        room := by decide +kernel
        first := by
          intro _ other _ _ smaller
          rw [inRoot] at smaller
          exact absurd smaller UInt16.not_lt_zero } }

theorem rootList_cleaned :
    ∃ after, aimSsiCleanlist lastMalloc 23 rootList = some after ∧
      Cleaned rootList.localList after.localList :=
  aimSsiCleanlist_cleans lastMalloc rootList_cleanable (by decide)

/-- The buddy in the existing group is deleted, and the other one stays where it is. -/
theorem strayList_not_cleaned :
    ∃ after, aimSsiCleanlist lastMalloc 19 strayList = some after ∧
      ¬ Cleaned strayList.localList after.localList := by
  have ran : (cleanRounds lastMalloc 19 strayList
      (addressesOf strayList.localList).head?).map (fun od =>
        (od.localList.map bare, od.waitingForAck)) =
      some ([newNode 1 none 0 0 typeGroup [], newNode 2 (some [70]) 1 0 typeGroup [],
        newNode 15 (some orphans) 2 0 typeGroup [], newNode 16 (some [98]) 2 1 typeBuddy [],
        newNode 4 (some [98]) 5 1 typeBuddy []], true) := by decide +kernel
  obtain ⟨middle, loop, result⟩ := map_eq_some_iff.mp ran
  obtain ⟨isLocal, waits⟩ := Prod.mk.inj result
  refine ⟨{ middle with localList := withoutDuplicates middle.localList }, ?_, ?_⟩
  · rw [aimSsiCleanlist, loop, bind_some, aimSsiSync, if_pos waits]
  · intro cleaned
    obtain ⟨other, member, -, sameGid, hasName⟩ := cleaned.kept
      (newNode 3 (some [98]) 1 1 typeBuddy []) (by decide)
      ⟨rfl, by decide, by decide, newNode 2 (some [70]) 1 0 typeGroup [], by decide, rfl, rfl, rfl⟩
      [98] rfl
    have there := List.mem_map_of_mem (f := bare)
      ((withoutDuplicates_sublist middle.localList).subset member)
    rw [isLocal] at there
    have none : ∀ cur ∈ [newNode 1 none 0 0 typeGroup [], newNode 2 (some [70]) 1 0 typeGroup [],
        newNode 15 (some orphans) 2 0 typeGroup [], newNode 16 (some [98]) 2 1 typeBuddy [],
        newNode 4 (some [98]) 5 1 typeBuddy []], cur.item.gid = 1 → cur.hasName [98] = false := by
      decide
    have lost := none (bare other) there sameGid
    have bareName : (bare other).hasName [98] = true := hasName
    rw [bareName] at lost
    cases lost

end Purple.Oscar
