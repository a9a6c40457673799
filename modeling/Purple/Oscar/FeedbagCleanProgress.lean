/-
The first loop of cleaning the local list, round by round, on lists without chains.

`Progress base list rest` is what holds between two rounds of the first loop: `base` is
the list that it started with, `list` is the list now, and `rest` is the end of it that
starts with the next item.
-/

import Purple.Oscar.FeedbagClean

namespace Purple.Oscar

open List Option

theorem isOrphan_iff (list : List SsiNode) (cur : SsiNode) :
    isOrphan list cur = true ↔ cur.item.type = typeBuddy ∧ cur.item.name ≠ none ∧
      (cur.item.gid = 0 ∨ aimSsiItemlistFind list cur.item.gid 0 = none) := by
  rw [isOrphan, decide_eq_true_eq]

theorem place_none_iff (list : List SsiNode) (gid : UInt16) :
    aimSsiItemlistFind list gid 0 = none ↔
      ∀ cur ∈ list, cur.item.gid = gid → cur.item.bid ≠ 0 := by
  rw [aimSsiItemlistFind, find?_eq_none]
  simp only [decide_eq_true_eq, not_and, ne_eq]

theorem HasGroup.found {list : List SsiNode} {gid : UInt16} (group : HasGroup list gid) :
    aimSsiItemlistFind list gid 0 ≠ none := by
  obtain ⟨cur, member, -, isGid, isBid⟩ := group
  intro missing
  exact (place_none_iff list gid).mp missing cur member isGid isBid

theorem HasGroup.not_orphan {list : List SsiNode} {cur : SsiNode}
    (group : HasGroup list cur.item.gid) (notRoot : cur.item.gid ≠ 0) :
    ¬ isOrphan list cur = true := by
  intro orphan
  obtain ⟨-, -, root | missing⟩ := (isOrphan_iff list cur).mp orphan
  · exact notRoot root
  · exact group.found missing

theorem mem_named {list : List SsiNode} {cur : SsiNode} :
    cur ∈ named list ↔ cur ∈ list ∧ isNameless cur = false := by
  rw [named, mem_filter, Bool.not_eq_true']

theorem not_nameless_of_name {cur : SsiNode} (isNamed : cur.item.name ≠ none) :
    isNameless cur = false := decide_eq_false fun both => isNamed both.1

theorem not_nameless_of_group {cur : SsiNode} (isGroup : cur.item.type = typeGroup) :
    isNameless cur = false := by
  apply decide_eq_false
  rintro ⟨-, either⟩
  rw [isGroup] at either
  exact absurd either (by decide)

theorem findorphans_group {list : List SsiNode} {parent : SsiNode}
    (found : aimSsiItemlistFinditem list (some orphans) none typeGroup = some parent) :
    HasGroup list parent.item.gid := by
  have holds := find?_some found
  have all := of_decide_eq_true holds
  exact ⟨parent, mem_of_find?_eq_some found, all.1, rfl, all.2.1⟩

/-! ### Positions -/

theorem split_longer {front rest longer : List SsiNode} {cur : SsiNode}
    (sublist : (front ++ cur :: rest).Sublist longer) :
    ∃ before behind, longer = before ++ cur :: behind ∧ front.Sublist before ∧
      rest.Sublist behind := by
  obtain ⟨early, late, rfl, inEarly, inLate⟩ := append_sublist_iff.mp sublist
  obtain ⟨middle, behind, rfl, member, inBehind⟩ := cons_sublist_iff.mp inLate
  obtain ⟨first, second, rfl⟩ := append_of_mem member
  refine ⟨early ++ first, second ++ behind, ?_, inEarly.trans (sublist_append_left _ _),
    inBehind.trans (sublist_append_right _ _)⟩
  rw [append_assoc, append_assoc, cons_append]

theorem Separate.nodup {list : List SsiNode} (separate : Separate list) : list.Nodup :=
  List.Nodup.of_map _ separate

theorem Separate.apart {front rest : List SsiNode} (separate : Separate (front ++ rest))
    {cur : SsiNode} (early : cur ∈ front) : cur ∉ rest := fun late =>
  (nodup_append.mp separate.nodup).2.2 cur early cur late rfl

theorem Separate.mem_del {list : List SsiNode} (separate : Separate list) {del : SsiNode}
    (isDel : del ∈ list) {cur : SsiNode} :
    cur ∈ aimSsiItemlistDel list del.address ↔ cur ∈ list ∧ cur ≠ del := by
  rw [Oscar.mem_del]
  apply and_congr_right
  intro member
  exact not_congr ⟨fun same => separate.unique member isDel same, congrArg SsiNode.address⟩

theorem del_perm {list : List SsiNode} (separate : Separate list) {del : SsiNode}
    (isDel : del ∈ list) : list.Perm (del :: aimSsiItemlistDel list del.address) := by
  apply (perm_ext_iff_of_nodup separate.nodup _).mpr
  · intro cur
    rw [mem_cons, separate.mem_del isDel]
    by_cases same : cur = del
    · rw [same]
      exact iff_of_true isDel (Or.inl rfl)
    · exact ⟨fun member => Or.inr ⟨member, same⟩, fun either => (either.resolve_left same).1⟩
  · apply nodup_cons.mpr
    constructor
    · intro member
      exact ((separate.mem_del isDel).mp member).2 rfl
    · exact (separate.deleted del.address).nodup

theorem del_middle {front rest : List SsiNode} {cur : SsiNode}
    (separate : Separate (front ++ cur :: rest)) :
    aimSsiItemlistDel (front ++ cur :: rest) cur.address = front ++ rest := by
  have others : ∀ other ∈ front ++ rest, other.address ≠ cur.address := by
    intro other member same
    have here : other = cur := by
      apply separate.unique _ (mem_append_right _ mem_cons_self) same
      obtain early | late := mem_append.mp member
      · exact mem_append_left _ early
      · exact mem_append_right _ (mem_cons_of_mem _ late)
    rw [here] at member
    obtain early | late := mem_append.mp member
    · exact separate.apart early mem_cons_self
    · exact (nodup_cons.mp (nodup_append.mp separate.nodup).2.1).1 late
  rw [aimSsiItemlistDel, filter_append, filter_cons_of_neg (by simp), ← filter_append]
  exact filter_eq_self.mpr fun other member => decide_eq_true (others other member)

theorem findgroup_del {list : List SsiNode} {del : SsiNode} (separate : Separate list)
    (isDel : del ∈ list) (notGroup : del.item.type ≠ typeGroup) (gn : Bytes) :
    aimSsiItemlistFinditem (aimSsiItemlistDel list del.address) (some gn) none typeGroup =
      aimSsiItemlistFinditem list (some gn) none typeGroup := by
  obtain ⟨front, rest, rfl⟩ := append_of_mem isDel
  rw [del_middle separate, aimSsiItemlistFinditem, aimSsiItemlistFinditem, find?_append,
    find?_append, find?_cons_of_neg]
  rw [decide_eq_true_eq]
  exact fun all => notGroup all.1

theorem sorted_middle {front rest : List SsiNode} {cur other : SsiNode}
    (sorted : Sorted (front ++ cur :: rest)) :
    (other ∈ front → orderKey other.item ≤ orderKey cur.item) ∧
      (other ∈ rest → orderKey cur.item ≤ orderKey other.item) := by
  obtain ⟨-, behind, across⟩ := pairwise_append.mp sorted
  exact ⟨fun early => across other early cur mem_cons_self,
    fun late => (pairwise_cons.mp behind).1 other late⟩

theorem gid_le_of_orderKey {first second : AimSsiItem} (ordered : orderKey first ≤ orderKey second) :
    first.gid ≤ second.gid := by
  have bound := second.bid.toNat_lt
  rw [orderKey, orderKey] at ordered
  rw [UInt16.le_iff_toNat_le]
  omega

theorem bid_le_of_orderKey {first second : AimSsiItem} (ordered : orderKey first ≤ orderKey second)
    (same : first.gid = second.gid) : first.bid ≤ second.bid := by
  rw [orderKey, orderKey, same] at ordered
  rw [UInt16.le_iff_toNat_le]
  omega

/-! ### The first loop -/

def goalGid (base : List SsiNode) : UInt16 := orphansGid (named base)

def takesId (base : List SsiNode) (cur : SsiNode) : Bool :=
  cur.item.gid = goalGid base || isOrphan (named base) cur

structure Progress (base list rest : List SsiNode) : Prop where
  suffix : rest <:+ list
  separate : Separate list
  sorted : Sorted list
  /-- What is to be done is still ahead. -/
  waits : ∀ cur ∈ list, isNameless cur = true ∨ isOrphan list cur = true → cur ∈ rest
  origin : ∀ cur ∈ list, cur ∈ base ∨
    cur.item.type = typeGroup ∧ cur.item.bid = 0 ∧
      (cur.item.gid = 0 ∨ cur.item.gid = goalGid base) ∨
    cur.item.type = typeBuddy ∧ cur.item.gid = goalGid base ∧ goalGid base ≠ 0
  kept : ∀ cur ∈ base, cur.item.type = typeGroup ∨ Housed base cur → cur ∈ list
  parent : ∀ parent, aimSsiItemlistFinditem list (some orphans) none typeGroup = some parent →
    parent.item.gid = goalGid base
  /-- Before there is a group for the orphans, none of them has been worked on. -/
  untouched : aimSsiItemlistFinditem list (some orphans) none typeGroup = none →
    (named base).Sublist list ∧ list.Sublist base
  room : (list.filter (takesId base)).length ≤ (base.filter (takesId base)).length +
    if aimSsiItemlistFinditem list (some orphans) none typeGroup = none then 0 else 1

/-- An item that may have to be moved to the group of the orphans. -/
def isEarly (base : List SsiNode) (cur : SsiNode) : Bool :=
  cur.item.type = typeBuddy ∧ cur.item.gid < goalGid base

/-- What is left to do, for each orphan with the three items that it may bring. -/
def work (base list rest : List SsiNode) : Nat :=
  rest.length + 3 * (rest.filter (isEarly base)).length +
    if aimSsiItemlistFinditem list (some orphans) none typeGroup = none then 3 else 0

section Rounds

variable {base list rest : List SsiNode} {cur : SsiNode}

theorem Progress.group_kept (progress : Progress base list rest) {gid : UInt16}
    (group : HasGroup base gid) : HasGroup list gid := by
  obtain ⟨cur, member, isGroup, isGid, isBid⟩ := group
  exact ⟨cur, progress.kept cur member (Or.inl isGroup), isGroup, isGid, isBid⟩

theorem Progress.old_or_group (progress : Progress base list rest) (member : cur ∈ list)
    (notGroup : cur.item.type ≠ typeGroup) :
    cur ∈ base ∨ cur.item.gid = goalGid base ∧ goalGid base ≠ 0 ∧ HasGroup list cur.item.gid := by
  cases found : aimSsiItemlistFinditem list (some orphans) none typeGroup with
  | none => exact Or.inl ((progress.untouched found).2.subset member)
  | some parent =>
    obtain old | ⟨isGroup, -⟩ | ⟨-, isGid, notRoot⟩ := progress.origin cur member
    · exact Or.inl old
    · exact absurd isGroup notGroup
    · have group := findorphans_group found
      rw [progress.parent parent found, ← isGid] at group
      exact Or.inr ⟨isGid, notRoot, group⟩

theorem Progress.orphan_base (progress : Progress base list rest) (fitting : Fitting base)
    (member : cur ∈ list) (orphan : isOrphan list cur = true) :
    cur ∈ named base ∧ isOrphan (named base) cur = true := by
  obtain ⟨isBuddy, isNamed, lost⟩ := (isOrphan_iff list cur).mp orphan
  have notGroup : cur.item.type ≠ typeGroup := by
    rw [isBuddy]
    decide
  have old : cur ∈ base := by
    obtain old | ⟨isGid, notRoot, group⟩ := progress.old_or_group member notGroup
    · exact old
    · exact absurd orphan (group.not_orphan (by rw [isGid]; exact notRoot))
  have inNamed := mem_named.mpr ⟨old, not_nameless_of_name isNamed⟩
  refine ⟨inNamed, (isOrphan_iff _ cur).mpr ⟨isBuddy, isNamed, ?_⟩⟩
  by_cases root : cur.item.gid = 0
  · exact Or.inl root
  apply Or.inr
  apply (place_none_iff _ _).mpr
  intro other isOther same zero
  have group := fitting.honest cur inNamed isBuddy root other isOther same zero
  exact (progress.group_kept group).not_orphan root orphan

theorem Progress.passed (progress : Progress base list (cur :: rest))
    (isNamed : isNameless cur = false) (housed : isOrphan list cur = false) :
    Progress base list rest where
  suffix := (suffix_cons cur rest).trans progress.suffix
  separate := progress.separate
  sorted := progress.sorted
  waits := by
    intro other member bad
    obtain rfl | later := mem_cons.mp (progress.waits other member bad)
    · rw [isNamed, housed] at bad
      exact absurd bad (by decide)
    · exact later
  origin := progress.origin
  kept := progress.kept
  parent := progress.parent
  untouched := progress.untouched
  room := progress.room

theorem nameless_notGroup (nameless : isNameless cur = true) : cur.item.type ≠ typeGroup := by
  intro isGroup
  rw [not_nameless_of_group isGroup] at nameless
  cases nameless

theorem Progress.dropped (progress : Progress base list (cur :: rest))
    (nameless : isNameless cur = true) :
    Progress base (aimSsiItemlistDel list cur.address) rest := by
  obtain ⟨front, rfl⟩ := progress.suffix
  have separate := progress.separate
  have member : cur ∈ front ++ cur :: rest := mem_append_right _ mem_cons_self
  have part : (front ++ rest).Sublist (front ++ cur :: rest) :=
    (sublist_cons_self cur rest).append_left front
  have findgroup := findgroup_del separate member (nameless_notGroup nameless) orphans
  have isDel := fun other => @Separate.mem_del _ separate cur member other
  rw [del_middle separate] at findgroup isDel ⊢
  exact {
    suffix := suffix_append front rest
    separate := separate.sublist part
    sorted := progress.sorted.sublist part
    waits := by
      intro other isOther bad
      obtain ⟨before, different⟩ := (isDel other).mp isOther
      by_cases was : isNameless other = true ∨ isOrphan (front ++ cur :: rest) other = true
      · exact (mem_cons.mp (progress.waits other before was)).resolve_left different
      -- the item was at the place of the group of the other one, which it stands before
      obtain ⟨notNameless, notOrphan⟩ := not_or.mp was
      have orphan := bad.resolve_left notNameless
      obtain ⟨isBuddy, isNamed, lost⟩ := (isOrphan_iff _ other).mp orphan
      rw [isOrphan_iff, not_and, not_and, not_or] at notOrphan
      obtain ⟨notRoot, present⟩ := notOrphan isBuddy isNamed
      have missing := (place_none_iff _ _).mp (lost.resolve_left notRoot)
      rw [place_none_iff] at present
      obtain ⟨place, isPlace, sameGid, zero⟩ : ∃ place ∈ front ++ cur :: rest,
          place.item.gid = other.item.gid ∧ place.item.bid = 0 := by
        by_contra nothing
        exact present fun place isPlace same zero => nothing ⟨place, isPlace, same, zero⟩
      have isCur : place = cur := by
        by_contra another
        exact missing place ((isDel place).mpr ⟨isPlace, another⟩) sameGid zero
      rw [isCur] at sameGid zero
      obtain early | late := mem_append.mp isOther
      · exfalso
        have ordered := (sorted_middle progress.sorted).1 early
        have lowest := bid_le_of_orderKey ordered sameGid.symm
        rw [zero] at lowest
        exact missing other isOther rfl (UInt16.le_zero_iff.mp lowest)
      · exact late
    origin := fun other isOther => progress.origin other (part.subset isOther)
    kept := by
      intro other old either
      apply (isDel other).mpr
      refine ⟨progress.kept other old either, ?_⟩
      rintro rfl
      obtain isGroup | housed := either
      · exact nameless_notGroup nameless isGroup
      · rw [not_nameless_of_name housed.named] at nameless
        cases nameless
    parent := by
      rw [findgroup]
      exact progress.parent
    untouched := by
      rw [findgroup]
      intro missing
      obtain ⟨whole, old⟩ := progress.untouched missing
      refine ⟨?_, part.trans old⟩
      have filtered := whole.filter fun cur => !isNameless cur
      rw [filter_append, filter_cons_of_neg (by rw [nameless]; decide),
        ← filter_append, named, List.filter_filter] at filtered
      simp only [Bool.and_self] at filtered
      exact filtered.trans filter_sublist
    room := by
      rw [findgroup]
      exact Nat.le_trans (part.filter _).length_le progress.room }

/-! ### The round of an orphan -/

theorem Progress.moves {front : List SsiNode}
    (progress : Progress base (front ++ cur :: rest) (cur :: rest)) (fitting : Fitting base)
    (orphan : isOrphan (front ++ cur :: rest) cur = true) : Moves (named base) cur := by
  obtain ⟨-, curNamed, curLost⟩ := (isOrphan_iff _ cur).mp orphan
  obtain ⟨inNamed, orphanBase⟩ :=
    progress.orphan_base fitting (mem_append_right _ mem_cons_self) orphan
  have fits := fitting.orphans cur inNamed orphanBase
  obtain lower | same := UInt16.lt_or_eq_of_le fits.ahead
  · exact Or.inl lower
  apply Or.inr
  cases foundGroup : aimSsiItemlistFinditem (front ++ cur :: rest) (some orphans) none typeGroup with
  | some parent =>
    exfalso
    have there := findorphans_group foundGroup
    rw [progress.parent parent foundGroup, goalGid, ← same] at there
    have curRoot : cur.item.gid ≠ 0 := by
      rw [same]
      exact fits.notRoot
    exact there.not_orphan curRoot orphan
  | none =>
    obtain ⟨whole, oldList⟩ := progress.untouched foundGroup
    intro before behind isNamedBase first isFirst
    rw [isNamedBase] at whole
    obtain ⟨front', rest', isList, inFront, -⟩ := split_longer whole
    have nodup := progress.separate.nodup
    have curFront : cur ∉ front := fun here => progress.separate.apart here mem_cons_self
    have curRest : cur ∉ rest := (nodup_cons.mp (nodup_append.mp nodup).2.1).1
    obtain ⟨rfl, -, -⟩ := (append_cons_inj_of_notMem curFront curRest).mp isList
    have firstFront := inFront.subset isFirst
    have firstList : first ∈ front ++ cur :: rest := mem_append_left _ firstFront
    rw [Bool.eq_false_iff]
    intro firstOrphan
    have notWaits : ¬ isOrphan (front ++ cur :: rest) first = true := fun lost =>
      progress.separate.apart firstFront (progress.waits first firstList (Or.inr lost))
    obtain ⟨firstBuddy, firstNamed, firstLost⟩ := (isOrphan_iff _ first).mp firstOrphan
    rw [isOrphan_iff, not_and, not_and, not_or] at notWaits
    obtain ⟨firstRoot, firstPresent⟩ := notWaits firstBuddy firstNamed
    -- only an item without a name can be at the place of its group, and it is behind
    obtain ⟨hidden, isHidden⟩ := ne_none_iff_exists'.mp firstPresent
    have hiddenThere := mem_of_find?_eq_some isHidden
    have hiddenHolds := find?_some isHidden
    obtain ⟨hiddenGid, hiddenZero⟩ := of_decide_eq_true hiddenHolds
    have hiddenNameless : isNameless hidden = true := by
      by_contra isNamed
      exact (place_none_iff _ _).mp (firstLost.resolve_left firstRoot) hidden
        (mem_named.mpr ⟨oldList.subset hiddenThere, Bool.eq_false_iff.mpr isNamed⟩)
        hiddenGid hiddenZero
    have hiddenLate : hidden ∈ rest := by
      obtain rfl | late := mem_cons.mp
        (progress.waits hidden hiddenThere (Or.inl hiddenNameless))
      · rw [not_nameless_of_name curNamed] at hiddenNameless
        cases hiddenNameless
      · exact late
    have firstOrder := (sorted_middle progress.sorted).1 firstFront
    have hiddenOrder := (sorted_middle progress.sorted).2 hiddenLate
    have curGid : cur.item.gid = hidden.item.gid := by
      apply UInt16.le_antisymm (gid_le_of_orderKey hiddenOrder)
      rw [hiddenGid]
      exact gid_le_of_orderKey firstOrder
    have curZero := bid_le_of_orderKey hiddenOrder curGid
    rw [hiddenZero] at curZero
    have curRoot : cur.item.gid ≠ 0 := by
      rw [curGid, hiddenGid]
      exact firstRoot
    exact (place_none_iff _ _).mp (curLost.resolve_left curRoot) cur
      (mem_append_right _ mem_cons_self) rfl (UInt16.le_zero_iff.mp curZero)

theorem Progress.none_before {front : List SsiNode}
    (progress : Progress base (front ++ cur :: rest) (cur :: rest)) (fitting : Fitting base)
    (orphan : isOrphan (front ++ cur :: rest) cur = true) {name : Bytes}
    (isName : cur.item.name = some name) {other : SsiNode} (early : other ∈ front)
    (isBuddy : other.item.type = typeBuddy) : other.hasName name = false := by
  rw [Bool.eq_false_iff]
  intro hasName
  have isOther : other ∈ front ++ cur :: rest := mem_append_left _ early
  obtain ⟨curBuddy, curNamed, curLost⟩ := (isOrphan_iff _ cur).mp orphan
  obtain ⟨inNamed, orphanBase⟩ :=
    progress.orphan_base fitting (mem_append_right _ mem_cons_self) orphan
  have fits := fitting.orphans cur inNamed orphanBase
  have notLate := progress.separate.apart early
  have notOrphan : ¬ isOrphan (front ++ cur :: rest) other = true := fun lost =>
    notLate (progress.waits other isOther (Or.inr lost))
  have otherNamed : other.item.name ≠ none := by
    obtain ⟨own, isOwn, -⟩ := (hasName_iff other name).mp hasName
    rw [isOwn]
    nofun
  rw [isOrphan_iff, not_and, not_and, not_or] at notOrphan
  obtain ⟨notRoot, present⟩ := notOrphan isBuddy otherNamed
  obtain ⟨place, found⟩ := ne_none_iff_exists'.mp present
  have isPlace := mem_of_find?_eq_some found
  have holds := find?_some found
  obtain ⟨sameGid, zero⟩ := of_decide_eq_true holds
  have ordered := (sorted_middle progress.sorted).1 early
  -- the group of the orphan is missing, so that of the other one is another
  have smaller : other.item.gid < cur.item.gid := by
    apply UInt16.lt_of_le_of_ne (gid_le_of_orderKey ordered)
    intro same
    rw [same] at notRoot present
    exact curLost.elim notRoot present
  have below : other.item.gid < goalGid base := UInt16.lt_of_lt_of_le smaller fits.ahead
  have notGoal : other.item.gid ≠ goalGid base := by
    intro same
    rw [same] at below
    exact absurd below (UInt16.lt_irrefl _)
  have otherGroup : other.item.type ≠ typeGroup := by
    rw [isBuddy]
    decide
  have old : other ∈ base := by
    obtain old | ⟨isGid, -⟩ := progress.old_or_group isOther otherGroup
    · exact old
    · exact absurd isGid notGoal
  have placeEarly : place.item.gid < cur.item.gid := by
    rw [sameGid]
    exact smaller
  have group : HasGroup base other.item.gid := by
    obtain oldPlace | ⟨isGroup, -, either⟩ | ⟨-, isGid, -⟩ := progress.origin place isPlace
    · have placeNamed : isNameless place = false := by
        rw [Bool.eq_false_iff]
        intro nameless
        have behind : orderKey cur.item ≤ orderKey place.item := by
          obtain rfl | late := mem_cons.mp (progress.waits place isPlace (Or.inl nameless))
          · exact Nat.le_refl _
          · exact (sorted_middle progress.sorted).2 late
        exact absurd (gid_le_of_orderKey behind) (UInt16.not_le.mpr placeEarly)
      exact fitting.honest other (mem_named.mpr ⟨old, not_nameless_of_name otherNamed⟩) isBuddy
        notRoot place (mem_named.mpr ⟨oldPlace, placeNamed⟩) sameGid zero
    · rw [sameGid] at either
      exact either.elim (fun root => absurd root notRoot) fun goal => absurd goal notGoal
    · rw [sameGid] at isGid
      exact absurd isGid notGoal
  have moves := progress.moves fitting orphan
  have differs := fits.first moves other old ⟨isBuddy, otherNamed, notRoot, group⟩ smaller name isName
  rw [differs] at hasName
  cases hasName

theorem Progress.found (progress : Progress base list (cur :: rest)) (fitting : Fitting base)
    (orphan : isOrphan list cur = true) {name : Bytes} (isName : cur.item.name = some name)
    {longer groups : List SsiNode} {fresh : SsiNode}
    (added : Added list longer name (goalGid base) fresh groups) :
    ∃ del, aimSsiItemlistFinditem longer none (some name) typeBuddy = some del ∧
      (del = cur ∨ del = fresh ∧ cur.item.gid = goalGid base) := by
  obtain ⟨front, rfl⟩ := progress.suffix
  obtain ⟨isBuddy, -, -⟩ := (isOrphan_iff _ cur).mp orphan
  obtain ⟨inNamed, orphanBase⟩ :=
    progress.orphan_base fitting (mem_append_right _ mem_cons_self) orphan
  have fits := fitting.orphans cur inNamed orphanBase
  have separate := added.separate progress.separate
  have sorted := added.sorted progress.sorted
  obtain ⟨before, behind, isLonger, -, inBehind⟩ := split_longer added.sublist
  rw [isLonger] at separate sorted
  have only : ∀ other ∈ before, other.item.type = typeBuddy → other.hasName name = true →
      other = fresh ∧ cur.item.gid = goalGid base := by
    intro other early otherBuddy hasName
    have member : other ∈ fresh :: (groups ++ (front ++ cur :: rest)) := by
      apply added.perm.mem_iff.mp
      rw [isLonger]
      exact mem_append_left _ early
    have notLate := separate.apart early
    obtain rfl | others := mem_cons.mp member
    · refine ⟨rfl, UInt16.le_antisymm fits.ahead ?_⟩
      have ordered := gid_le_of_orderKey ((sorted_middle sorted).1 early)
      rw [added.inGroup] at ordered
      exact ordered
    exfalso
    obtain isGroup | old := mem_append.mp others
    · have groupType := (added.made other isGroup).1
      rw [otherBuddy] at groupType
      exact absurd groupType (by decide)
    obtain inFront | inRest := mem_append.mp old
    · rw [progress.none_before fitting orphan isName inFront otherBuddy] at hasName
      cases hasName
    · obtain rfl | late := mem_cons.mp inRest
      · exact notLate mem_cons_self
      · exact notLate (mem_cons_of_mem _ (inBehind.subset late))
  have isFound : (cur :: behind).find? (fun cur => cur.item.type = typeBuddy ∧
      cur.hasName name = true) = some cur :=
    find?_cons_of_pos
      (decide_eq_true ⟨isBuddy, (hasName_iff cur name).mpr ⟨name, isName, rfl⟩⟩)
  rw [isLonger, aimSsiItemlistFinditem, find?_append, isFound]
  cases found : before.find? fun cur => cur.item.type = typeBuddy ∧ cur.hasName name = true with
  | none => exact ⟨cur, rfl, Or.inl rfl⟩
  | some del =>
    have holds := find?_some found
    obtain ⟨delBuddy, hasName⟩ := of_decide_eq_true holds
    exact ⟨del, rfl, Or.inr (only del (mem_of_find?_eq_some found) delBuddy hasName)⟩

theorem ahead_of_deleted {front longer : List SsiNode} {del : SsiNode} (separate : Separate longer)
    (sublist : (front ++ cur :: rest).Sublist longer) (isDel : del ∈ longer)
    (notAhead : del ∉ rest) :
    ∃ ahead, ahead <:+ aimSsiItemlistDel longer del.address ∧ ahead.head? = rest.head? ∧
      (∀ other ∈ rest, other ∈ ahead) ∧ (front ++ cur :: ahead).Sublist longer := by
  cases rest with
  | nil => exact ⟨[], nil_suffix, rfl, nofun, sublist⟩
  | cons next later =>
    rw [append_cons] at sublist
    obtain ⟨before, behind, rfl, inBefore, inBehind⟩ := split_longer sublist
    have others : ∀ other ∈ next :: later, other.address ≠ del.address := by
      intro other member same
      have there : other ∈ before ++ next :: behind :=
        sublist.subset (mem_append_right _ member)
      rw [separate.unique there isDel same] at member
      exact notAhead member
    have keepsNext := others next mem_cons_self
    have kept : aimSsiItemlistDel (next :: behind) del.address =
        next :: aimSsiItemlistDel behind del.address :=
      filter_cons_of_pos (decide_eq_true keepsNext)
    refine ⟨next :: aimSsiItemlistDel behind del.address, ?_, rfl, ?_, ?_⟩
    · rw [← kept, aimSsiItemlistDel, aimSsiItemlistDel, filter_append]
      exact suffix_append _ _
    · intro other member
      obtain rfl | late := mem_cons.mp member
      · exact mem_cons_self
      · apply mem_cons_of_mem
        exact mem_filter.mpr
          ⟨inBehind.subset late, decide_eq_true (others other member)⟩
    · rw [append_cons]
      exact inBefore.append (filter_sublist.cons_cons next)

theorem group_not_orphan (isGroup : cur.item.type = typeGroup) : isOrphan list cur = false := by
  apply decide_eq_false
  rintro ⟨isBuddy, -⟩
  rw [isGroup] at isBuddy
  exact absurd isBuddy (by decide)

theorem Added.takes_le {longer groups : List SsiNode} {fresh : SsiNode} {name : Bytes}
    (added : Added list longer name (goalGid base) fresh groups) :
    (longer.filter (takesId base)).length ≤ (list.filter (takesId base)).length + 1 +
      if aimSsiItemlistFinditem list (some orphans) none typeGroup = none then 1 else 0 := by
  have counts := (added.perm.filter (takesId base)).length_eq
  have freshTakes : takesId base fresh = true := by
    rw [takesId, Bool.or_eq_true]
    exact Or.inl (decide_eq_true added.inGroup)
  have same : groups.filter (takesId base) =
      groups.filter fun cur => cur.item.gid = goalGid base := by
    apply filter_congr
    intro cur isGroup
    rw [takesId, group_not_orphan (added.made cur isGroup).1, Bool.or_false]
  rw [filter_cons_of_pos freshTakes, length_cons, filter_append, length_append,
    same] at counts
  have one := added.one
  by_cases missing : aimSsiItemlistFinditem list (some orphans) none typeGroup = none
  · rw [if_pos missing]
    omega
  · rw [added.there missing, filter_nil, length_nil] at counts
    rw [if_neg missing]
    omega

/-- The round of an orphan: `longer` is the list with what is added, and `del` is deleted from
it. -/
structure Replaced (base list rest : List SsiNode) (cur : SsiNode) (name : Bytes)
    (longer groups : List SsiNode) (fresh del : SsiNode) : Prop where
  progress : Progress base list (cur :: rest)
  fitting : Fitting base
  orphan : isOrphan list cur = true
  added : Added list longer name (goalGid base) fresh groups
  found : aimSsiItemlistFinditem longer none (some name) typeBuddy = some del
  isDel : del = cur ∨ del = fresh ∧ cur.item.gid = goalGid base

section Replacing

variable {longer groups : List SsiNode} {fresh del : SsiNode} {name : Bytes}

theorem Replaced.separate (replaced : Replaced base list rest cur name longer groups fresh del) :
    Separate longer := replaced.added.separate replaced.progress.separate

theorem Replaced.there (replaced : Replaced base list rest cur name longer groups fresh del) :
    del ∈ longer := (finditem_some replaced.found).1

theorem Replaced.notGroup (replaced : Replaced base list rest cur name longer groups fresh del) :
    del.item.type ≠ typeGroup := by
  rw [(finditem_some replaced.found).2]
  decide

theorem Replaced.cur_mem (replaced : Replaced base list rest cur name longer groups fresh del) :
    cur ∈ list := replaced.progress.suffix.subset mem_cons_self

theorem Replaced.fits (replaced : Replaced base list rest cur name longer groups fresh del) :
    isOrphan (named base) cur = true ∧ OrphanFits base cur := by
  obtain ⟨inNamed, orphanBase⟩ :=
    replaced.progress.orphan_base replaced.fitting replaced.cur_mem replaced.orphan
  exact ⟨orphanBase, replaced.fitting.orphans cur inNamed orphanBase⟩

theorem Replaced.fresh_not_mem
    (replaced : Replaced base list rest cur name longer groups fresh del) : fresh ∉ list := by
  intro old
  have nodup := replaced.added.perm.nodup_iff.mp replaced.separate.nodup
  exact (nodup_cons.mp nodup).1 (mem_append_right _ old)

theorem Replaced.parent (replaced : Replaced base list rest cur name longer groups fresh del) :
    ∃ parent, aimSsiItemlistFinditem (aimSsiItemlistDel longer del.address) (some orphans) none
      typeGroup = some parent ∧ parent.item.gid = goalGid base := by
  rw [findgroup_del replaced.separate replaced.there replaced.notGroup orphans]
  exact replaced.added.parent

theorem Replaced.goal (replaced : Replaced base list rest cur name longer groups fresh del) :
    HasGroup (aimSsiItemlistDel longer del.address) (goalGid base) := by
  obtain ⟨parent, isParent, parentGid⟩ := replaced.parent
  rw [← parentGid]
  exact findorphans_group isParent

theorem Replaced.made (replaced : Replaced base list rest cur name longer groups fresh del)
    (same : cur.item.gid = goalGid base) :
    aimSsiItemlistFinditem list (some orphans) none typeGroup = none := by
  by_contra present
  obtain ⟨group, isGroup⟩ := ne_none_iff_exists'.mp present
  have there := findorphans_group isGroup
  rw [replaced.progress.parent group isGroup, ← same] at there
  have curRoot : cur.item.gid ≠ 0 := by
    rw [same]
    exact replaced.fits.2.notRoot
  exact there.not_orphan curRoot replaced.orphan

theorem Replaced.was_orphan (replaced : Replaced base list rest cur name longer groups fresh del)
    {other : SsiNode} (lost : isOrphan (aimSsiItemlistDel longer del.address) other = true) :
    isOrphan list other = true := by
  obtain ⟨-, -, curLost⟩ := (isOrphan_iff _ cur).mp replaced.orphan
  obtain ⟨isBuddy, isNamed, missing⟩ := (isOrphan_iff _ other).mp lost
  refine (isOrphan_iff list other).mpr ⟨isBuddy, isNamed, ?_⟩
  by_cases root : other.item.gid = 0
  · exact Or.inl root
  apply Or.inr
  apply (place_none_iff _ _).mpr
  intro place isPlace same zero
  apply (place_none_iff _ _).mp (missing.resolve_left root) place _ same zero
  apply (replaced.separate.mem_del replaced.there).mpr
  refine ⟨replaced.added.sublist.subset isPlace, ?_⟩
  rintro rfl
  obtain rfl | ⟨rfl, -⟩ := replaced.isDel
  · have curRoot : place.item.gid ≠ 0 := by
      rw [same]
      exact root
    exact (place_none_iff _ _).mp (curLost.resolve_left curRoot) place replaced.cur_mem rfl zero
  · exact replaced.fresh_not_mem isPlace

theorem Replaced.waits (replaced : Replaced base list rest cur name longer groups fresh del)
    {other : SsiNode} (isOther : other ∈ aimSsiItemlistDel longer del.address)
    (bad : isNameless other = true ∨
      isOrphan (aimSsiItemlistDel longer del.address) other = true) : other ∈ rest := by
  have added := replaced.added
  have goal := replaced.goal
  have notRoot : goalGid base ≠ 0 := replaced.fits.2.notRoot
  obtain ⟨inLonger, different⟩ := (replaced.separate.mem_del replaced.there).mp isOther
  obtain rfl | others := mem_cons.mp (added.perm.mem_iff.mp inLonger)
  · exfalso
    have freshNamed : other.item.name ≠ none := by
      rw [added.name]
      nofun
    rw [← added.inGroup] at goal notRoot
    obtain nameless | lost := bad
    · rw [not_nameless_of_name freshNamed] at nameless
      cases nameless
    · exact goal.not_orphan notRoot lost
  obtain isGroup | old := mem_append.mp others
  · exfalso
    have groupType := (added.made other isGroup).1
    obtain nameless | lost := bad
    · exact nameless_notGroup nameless groupType
    · rw [group_not_orphan groupType] at lost
      cases lost
  have was := replaced.progress.waits other old (bad.imp_right replaced.was_orphan)
  apply (mem_cons.mp was).resolve_left
  rintro rfl
  -- the orphan has a group now, or it is not in the list
  obtain rfl | ⟨-, adopted⟩ := replaced.isDel
  · exact different rfl
  · obtain ⟨-, isNamed, -⟩ := (isOrphan_iff _ other).mp replaced.orphan
    rw [← adopted] at goal notRoot
    obtain nameless | lost := bad
    · rw [not_nameless_of_name isNamed] at nameless
      cases nameless
    · exact goal.not_orphan notRoot lost

theorem Replaced.room (replaced : Replaced base list rest cur name longer groups fresh del) :
    ((aimSsiItemlistDel longer del.address).filter (takesId base)).length ≤
      (base.filter (takesId base)).length + 1 := by
  have delTakes : takesId base del = true := by
    rw [takesId, Bool.or_eq_true]
    obtain rfl | ⟨rfl, -⟩ := replaced.isDel
    · exact Or.inr replaced.fits.1
    · exact Or.inl (decide_eq_true replaced.added.inGroup)
  have counts := ((del_perm replaced.separate replaced.there).filter (takesId base)).length_eq
  rw [filter_cons_of_pos delTakes, length_cons] at counts
  have before := replaced.progress.room
  have most := replaced.added.takes_le
  by_cases missing : aimSsiItemlistFinditem list (some orphans) none typeGroup = none
  · rw [if_pos missing] at before most
    omega
  · rw [if_neg missing] at before most
    omega

theorem Replaced.progressed
    (replaced : Replaced base list rest cur name longer groups fresh del) {ahead : List SsiNode}
    (suffix : ahead <:+ aimSsiItemlistDel longer del.address)
    (keeps : ∀ other ∈ rest, other ∈ aimSsiItemlistDel longer del.address → other ∈ ahead) :
    Progress base (aimSsiItemlistDel longer del.address) ahead := by
  obtain ⟨parent, isParent, parentGid⟩ := replaced.parent
  exact {
    suffix := suffix
    separate := replaced.separate.deleted del.address
    sorted := (replaced.added.sorted replaced.progress.sorted).sublist filter_sublist
    waits := fun other isOther bad => keeps other (replaced.waits isOther bad) isOther
    origin := by
      intro other isOther
      obtain ⟨inLonger, -⟩ := (replaced.separate.mem_del replaced.there).mp isOther
      obtain rfl | others := mem_cons.mp (replaced.added.perm.mem_iff.mp inLonger)
      · exact Or.inr (Or.inr
          ⟨replaced.added.type, replaced.added.inGroup, replaced.fits.2.notRoot⟩)
      · obtain isGroup | old := mem_append.mp others
        · exact Or.inr (Or.inl (replaced.added.made other isGroup))
        · exact replaced.progress.origin other old
    kept := by
      intro other old either
      have before := replaced.progress.kept other old either
      apply (replaced.separate.mem_del replaced.there).mpr
      refine ⟨replaced.added.sublist.subset before, ?_⟩
      rintro rfl
      obtain rfl | ⟨rfl, -⟩ := replaced.isDel
      · obtain isGroup | housed := either
        · exact replaced.notGroup isGroup
        · exact (replaced.progress.group_kept housed.group).not_orphan housed.notRoot
            replaced.orphan
      · exact replaced.fresh_not_mem before
    parent := by
      rw [isParent]
      intro other isOther
      rw [← Option.some.inj isOther]
      exact parentGid
    untouched := by
      rw [isParent]
      nofun
    room := by
      rw [if_neg (by rw [isParent]; nofun)]
      exact replaced.room }

theorem Replaced.work_lt (replaced : Replaced base list rest cur name longer groups fresh del)
    {front ahead : List SsiNode} (isList : front ++ cur :: rest = list)
    (part : (front ++ cur :: ahead).Sublist longer) :
    work base (aimSsiItemlistDel longer del.address) ahead < work base list (cur :: rest) := by
  have added := replaced.added
  obtain ⟨parent, isParent, -⟩ := replaced.parent
  have early := (part.filter (isEarly base)).length_le
  have whole := (added.perm.filter (isEarly base)).length_eq
  have freshLate : ¬ isEarly base fresh = true := by
    rw [isEarly, decide_eq_true_eq, added.inGroup]
    exact fun both => UInt16.lt_irrefl _ both.2
  have groupsLate : groups.filter (isEarly base) = [] := by
    apply filter_eq_nil_iff.mpr
    intro group isGroup isEarlyGroup
    have groupType := (added.made group isGroup).1
    rw [(of_decide_eq_true isEarlyGroup).1] at groupType
    exact absurd groupType (by decide)
  rw [filter_cons_of_neg freshLate, filter_append, groupsLate, nil_append, ← isList,
    filter_append, length_append] at whole
  rw [filter_append, length_append] at early
  have lengths := part.length_le
  have total := added.perm.length_eq
  rw [length_cons, length_append, ← isList, length_append, length_cons] at total
  rw [length_append, length_cons] at lengths
  have few := added.few
  rw [work, work, if_neg (by rw [isParent]; nofun), length_cons]
  obtain lower | same := UInt16.lt_or_eq_of_le replaced.fits.2.ahead
  · have isBuddy := ((isOrphan_iff _ cur).mp replaced.orphan).1
    have curEarly : isEarly base cur = true := decide_eq_true ⟨isBuddy, lower⟩
    rw [filter_cons_of_pos curEarly, length_cons] at early whole ⊢
    omega
  · have curLate : ¬ isEarly base cur = true := by
      rw [isEarly, decide_eq_true_eq, same]
      exact fun both => UInt16.lt_irrefl _ both.2
    rw [filter_cons_of_neg curLate] at early whole ⊢
    rw [if_pos (replaced.made same)]
    omega

theorem Replaced.not_ahead (replaced : Replaced base list rest cur name longer groups fresh del) :
    del ∉ rest := by
  intro late
  obtain rfl | ⟨rfl, -⟩ := replaced.isDel
  · have nodup := (replaced.progress.suffix.sublist).nodup replaced.progress.separate.nodup
    exact (nodup_cons.mp nodup).1 late
  · exact replaced.fresh_not_mem
      (replaced.progress.suffix.subset (mem_cons_of_mem _ late))

end Replacing

theorem Progress.moved (progress : Progress base list (cur :: rest)) (fitting : Fitting base)
    (orphan : isOrphan list cur = true) {name : Bytes} (isName : cur.item.name = some name)
    {longer groups : List SsiNode} {fresh : SsiNode}
    (added : Added list longer name (goalGid base) fresh groups) :
    ∃ del ahead, aimSsiItemlistFinditem longer none (some name) typeBuddy = some del ∧
      Progress base (aimSsiItemlistDel longer del.address) ahead ∧ ahead.head? = rest.head? ∧
      work base (aimSsiItemlistDel longer del.address) ahead < work base list (cur :: rest) := by
  obtain ⟨del, found, isDel⟩ := progress.found fitting orphan isName added
  have replaced : Replaced base list rest cur name longer groups fresh del :=
    ⟨progress, fitting, orphan, added, found, isDel⟩
  obtain ⟨front, isList⟩ := progress.suffix
  have sublist := added.sublist
  rw [← isList] at sublist
  obtain ⟨ahead, suffix, head, keeps, part⟩ :=
    ahead_of_deleted replaced.separate sublist replaced.there replaced.not_ahead
  exact ⟨del, ahead, found, replaced.progressed suffix fun other late _ => keeps other late, head,
    replaced.work_lt isList part⟩

/-! ### Before and behind the loop -/

theorem Progress.start (fitting : Fitting base) (separate : Separate base) :
    Progress base base base where
  suffix := suffix_refl base
  separate := separate
  sorted := fitting.sorted
  waits := fun _ member _ => member
  origin := fun _ member => Or.inl member
  kept := fun _ member _ => member
  parent := by
    intro parent found
    have same : aimSsiItemlistFinditem (named base) (some orphans) none typeGroup =
        aimSsiItemlistFinditem base (some orphans) none typeGroup := by
      rw [aimSsiItemlistFinditem, aimSsiItemlistFinditem, named, find?_filter]
      congr 1
      funext cur
      apply decide_eq_decide.mpr
      constructor
      · exact fun both => of_decide_eq_true both.2
      · intro all
        rw [not_nameless_of_group all.1]
        exact ⟨rfl, decide_eq_true all⟩
    rw [goalGid, orphansGid, same, found]
  untouched := fun _ => ⟨filter_sublist, List.Sublist.refl base⟩
  room := Nat.le_add_right _ _

theorem Progress.searched (progress : Progress base list (cur :: rest)) (fitting : Fitting base)
    (orphan : isOrphan list cur = true)
    (missing : aimSsiItemlistFinditem list (some orphans) none typeGroup = none) :
    searchId (fun gid => (gid = 0 && (aimSsiItemlistFind list 0 0).isNone) || groupTaken list gid)
      65536 0xffff = some (goalGid base) := by
  obtain ⟨whole, old⟩ := progress.untouched missing
  have curThere : cur ∈ list := progress.suffix.subset mem_cons_self
  obtain ⟨inNamed, orphanBase⟩ := progress.orphan_base fitting curThere orphan
  have notRoot := (fitting.orphans cur inNamed orphanBase).notRoot
  have missingBase : aimSsiItemlistFinditem (named base) (some orphans) none typeGroup = none := by
    apply find?_eq_none.mpr
    intro other member
    exact find?_eq_none.mp missing other (whole.subset member)
  have groups : groupTaken list = groupTaken (named base) := by
    funext gid
    rw [Bool.eq_iff_iff, groupTaken_iff, groupTaken_iff]
    constructor
    · rintro ⟨other, member, isGroup, isGid⟩
      exact ⟨other, mem_named.mpr ⟨old.subset member, not_nameless_of_group isGroup⟩, isGroup,
        isGid⟩
    · rintro ⟨other, member, isGroup, isGid⟩
      exact ⟨other, whole.subset member, isGroup, isGid⟩
  have roots : (aimSsiItemlistFind list 0 0).isNone = (aimSsiItemlistFind (named base) 0 0).isNone := by
    rw [Bool.eq_iff_iff, isNone_iff_eq_none, isNone_iff_eq_none, place_none_iff,
      place_none_iff]
    constructor
    · exact fun absent other member => absent other (whole.subset member)
    · intro absent other member root zero
      cases nameless : isNameless other with
      | false => exact absent other (mem_named.mpr ⟨old.subset member, nameless⟩) root zero
      | true =>
        -- what stands before it is at the same place
        obtain ⟨front, rfl⟩ := progress.suffix
        have behind : orderKey cur.item ≤ orderKey other.item := by
          obtain rfl | late := mem_cons.mp (progress.waits other member (Or.inl nameless))
          · exact Nat.le_refl _
          · exact (sorted_middle progress.sorted).2 late
        have curRoot : cur.item.gid = 0 := by
          have lowest := gid_le_of_orderKey behind
          rw [root] at lowest
          exact UInt16.le_zero_iff.mp lowest
        have curZero := bid_le_of_orderKey behind (curRoot.trans root.symm)
        rw [zero] at curZero
        exact absent cur inNamed curRoot (UInt16.le_zero_iff.mp curZero)
  rw [orphansGid, missingBase] at notRoot
  rw [goalGid, orphansGid, missingBase, groups, roots]
  dsimp only at notRoot ⊢
  cases searched : searchId (fun gid => (gid = 0 && (aimSsiItemlistFind (named base) 0 0).isNone) ||
      groupTaken (named base) gid) 65536 0xffff with
  | some gid => rfl
  | none =>
    rw [searched] at notRoot
    exact absurd rfl notRoot

theorem Progress.idsLeft (progress : Progress base list (cur :: rest)) (fitting : Fitting base)
    (orphan : isOrphan list cur = true) :
    (list.filter fun cur => cur.item.gid = goalGid base).length <
      if aimSsiItemlistFinditem list (some orphans) none typeGroup = none then 65535 else 65536 := by
  have curThere : cur ∈ list := progress.suffix.subset mem_cons_self
  obtain ⟨inNamed, orphanBase⟩ := progress.orphan_base fitting curThere orphan
  have bound : (base.filter (takesId base)).length < 65535 :=
    (fitting.orphans cur inNamed orphanBase).room
  have room := progress.room
  have fewer : (list.filter fun cur => cur.item.gid = goalGid base).length ≤
      (list.filter (takesId base)).length := by
    apply List.Sublist.length_le
    apply monotone_filter_right
    intro other inGroup
    rw [takesId, inGroup, Bool.true_or]
  by_cases missing : aimSsiItemlistFinditem list (some orphans) none typeGroup = none
  · rw [if_pos missing] at room ⊢
    omega
  · rw [if_neg missing] at room ⊢
    omega

theorem Progress.housed (progress : Progress base list []) (fitting : Fitting base)
    (member : cur ∈ list) (isBuddy : cur.item.type = typeBuddy) : Housed list cur := by
  have notNameless : ∀ other ∈ list, isNameless other = false := by
    intro other isOther
    rw [Bool.eq_false_iff]
    intro nameless
    cases progress.waits other isOther (Or.inl nameless)
  have isNamed : cur.item.name ≠ none := by
    intro nothing
    have named := notNameless cur member
    rw [isNameless, decide_eq_false_iff_not] at named
    exact named ⟨nothing, Or.inl isBuddy⟩
  have notOrphan : ¬ isOrphan list cur = true := by
    intro lost
    cases progress.waits cur member (Or.inr lost)
  rw [isOrphan_iff, not_and, not_and, not_or] at notOrphan
  obtain ⟨notRoot, present⟩ := notOrphan isBuddy isNamed
  refine ⟨isBuddy, isNamed, notRoot, ?_⟩
  obtain ⟨place, found⟩ := ne_none_iff_exists'.mp present
  obtain ⟨isPlace, sameGid, zero⟩ := find_some found
  by_cases isGroup : place.item.type = typeGroup
  · exact ⟨place, isPlace, isGroup, sameGid, zero⟩
  have notGroup : cur.item.type ≠ typeGroup := by
    rw [isBuddy]
    decide
  obtain old | ⟨-, -, group⟩ := progress.old_or_group member notGroup
  · obtain oldPlace | ⟨-, -, group⟩ := progress.old_or_group isPlace isGroup
    · apply progress.group_kept
      exact fitting.honest cur (mem_named.mpr ⟨old, notNameless cur member⟩) isBuddy notRoot place
        (mem_named.mpr ⟨oldPlace, notNameless place isPlace⟩) sameGid zero
    · rw [sameGid] at group
      exact group
  · exact group

end Rounds

end Purple.Oscar
