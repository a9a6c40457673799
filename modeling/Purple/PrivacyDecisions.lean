/-
Allowing and denying a user decide about that user only, except where a buddy
is taken for another one.
-/

import Purple.PrivacyLists

namespace Purple.Privacy

open List Memory

/-- What is right after a call for `who`. -/
structure Decided (normalize : Text → Text) (before : PurpleAccount) (who : Text)
    (decision : Bool) (after : PurpleAccount) : Prop where
  own : purplePrivacyCheck normalize after who = decision
  others : ∀ other, other ≠ [] → normalize other ≠ normalize who →
    purplePrivacyCheck normalize after other = purplePrivacyCheck normalize before other
  noDuplicates : ∀ side, (entries before side).Nodup → (entries after side).Nodup

def Decides (normalize : Text → Text) (collate : Text → Text → Bool) (account : PurpleAccount)
    (who : Text) : Prop :=
  (∃ after, purplePrivacyAllow normalize collate account who false = some after ∧
      Decided normalize account who true after) ∧
    ∃ after, purplePrivacyDeny normalize collate account who false = some after ∧
      Decided normalize account who false after

/-- The decisions are right for every user, in whatever order the buddies are listed. -/
def Right (normalize : Text → Text) (collate : Text → Text → Bool) (account : PurpleAccount) :
    Prop :=
  ∀ buddies, buddies.Perm account.buddies → ∀ who, who ≠ [] →
    Decides normalize collate { account with buddies } who

/-- No entry of a user stands next to the same entry, when there are two users. -/
def NoNeighbours (normalize : Text → Text) (names : List Text) : Prop :=
  ∀ who, who ≠ [] → ∀ other, other ≠ [] → normalize other ≠ normalize who →
    ¬[normalize other, normalize other] <:+: names

def ListedOnce (normalize : Text → Text) (names : List Text) : Prop :=
  ∀ who, who ≠ [] → names.count (normalize who) ≤ 1

/-- The entry of the buddy stays, or it is added for a name of the buddy that
does not collate as another buddy. -/
def Entered (normalize : Text → Text) (collate : Text → Text → Bool) (names buddies : List Text)
    (buddy : Text) : Prop :=
  normalize buddy ∈ names ∧ normalize buddy ≠ [] ∨
    ∃ same ∈ buddies, normalize same = normalize buddy ∧
      ∀ other ∈ buddies, normalize other ≠ normalize buddy → collate (normalize other) same = false

def Fair (normalize : Text → Text) (collate : Text → Text → Bool) (account : PurpleAccount) :
    Prop :=
  match account.permDeny with
  | .allowAll => NoNeighbours normalize (entries account .deny)
  | .denyAll => NoNeighbours normalize (entries account .permit)
  | .allowUsers => ListedOnce normalize (entries account .permit)
  | .denyUsers => ListedOnce normalize (entries account .deny)
  | .allowBuddylist => ∀ buddy ∈ account.buddies,
      (normalize buddy ≠ [] → (entries account .permit).count (normalize buddy) ≤ 1) ∧
        Entered normalize collate (entries account .permit) account.buddies buddy

variable {normalize : Text → Text} {collate : Text → Text → Bool} {account : PurpleAccount}

variable {names buddies : List Text} {buddy : Text}

theorem check_allowUsers (mode : account.permDeny = .allowUsers) (who : Text) :
    purplePrivacyCheck normalize account who = true ↔ normalize who ∈ entries account .permit := by
  unfold purplePrivacyCheck
  rw [mode, ← listed_iff]
  simp only [eq_comm]
  rfl

theorem check_denyUsers (mode : account.permDeny = .denyUsers) (who : Text) :
    purplePrivacyCheck normalize account who = true ↔ normalize who ∉ entries account .deny := by
  unfold purplePrivacyCheck
  rw [mode, ← listed_iff, Bool.not_eq_true, ← Bool.not_eq_true']
  simp only [eq_comm]
  rfl

theorem check_allowBuddylist (mode : account.permDeny = .allowBuddylist) (who : Text) :
    purplePrivacyCheck normalize account who = true ↔ Buddied normalize account.buddies who := by
  unfold purplePrivacyCheck
  rw [mode]
  exact find_iff

theorem check_allowAll (mode : account.permDeny = .allowAll) (who : Text) :
    purplePrivacyCheck normalize account who = true := by
  unfold purplePrivacyCheck
  rw [mode]

theorem check_denyAll (mode : account.permDeny = .denyAll) (who : Text) :
    purplePrivacyCheck normalize account who = false := by
  unfold purplePrivacyCheck
  rw [mode]

/-! ### Entries that are added and erased -/

theorem erase_own {name : Text} : name ∉ names.erase name ↔ names.count name ≤ 1 := by
  rw [← count_eq_zero, count_erase_self]
  omega

theorem addEntry_other {name other : Text} (different : other ≠ name) :
    other ∈ addEntry names name ↔ other ∈ names := by
  rw [mem_addEntry]
  exact ⟨fun either => either.resolve_right different, .inl⟩

theorem addEntry_count {name other : Text} :
    (addEntry names name).count other ≤ 1 ↔ names.count other ≤ 1 := by
  unfold addEntry
  split
  · exact Iff.rfl
  · rename_i absent
    rw [count_append, count_singleton]
    split
    · rename_i same
      rw [← eq_of_beq same, count_eq_zero.mpr absent]
      omega
    · rw [Nat.add_zero]

/-- What a call for `who` keeps: the mode, the duplicates, and the entries of others. -/
structure Touches (normalize : Text → Text) (side : Side) (who : Text)
    (before after : PurpleAccount) : Prop where
  permDeny : after.permDeny = before.permDeny
  others : ∀ other, normalize other ≠ normalize who →
    (normalize other ∈ entries after side ↔ normalize other ∈ entries before side)
  noDuplicates : ∀ another, (entries before another).Nodup → (entries after another).Nodup

theorem duplicates_of_frame {side : Side} {before after : PurpleAccount}
    (frame : Frame side before after)
    (own : (entries before side).Nodup → (entries after side).Nodup) (another : Side) :
    (entries before another).Nodup → (entries after another).Nodup := by
  by_cases same : another = side
  · rw [same]
    exact own
  · rw [frame_entries frame same]
    exact id

section Calls

variable (idempotent : ∀ name, normalize (normalize name) = normalize name)
  (sound : Sound normalize account) (side : Side) (who : Text)
include idempotent sound

theorem add_touches :
    Touches normalize side who account (privacyAdd normalize side account who).2 ∧
      normalize who ∈ entries (privacyAdd normalize side account who).2 side := by
  obtain ⟨-, frame, added⟩ := add_entries idempotent sound side who
  refine ⟨⟨frame.permDeny, ?_, duplicates_of_frame frame fun nodup => ?_⟩, ?_⟩
  · intro other different
    rw [added, addEntry_other different]
  · rw [added]
    exact addEntry_nodup nodup _
  · rw [added, mem_addEntry]
    exact .inr rfl

theorem remove_touches :
    Touches normalize side who account (privacyRemove normalize side account who).2 ∧
      (normalize who ∉ entries (privacyRemove normalize side account who).2 side ↔
        (entries account side).count (normalize who) ≤ 1) := by
  obtain ⟨-, frame, removed⟩ := remove_entries idempotent sound side who
  refine ⟨⟨frame.permDeny, ?_, duplicates_of_frame frame fun nodup => ?_⟩, ?_⟩
  · intro other different
    rw [removed, mem_erase_of_ne different]
  · rw [removed]
    exact nodup.erase _
  · rw [removed]
    exact erase_own

theorem refill_touches :
    ∃ emptied, emptyList normalize side account who = some emptied ∧
      let after := (privacyAdd normalize side emptied who).2
      normalize who ∈ entries after side ∧
      (∀ other, normalize other ≠ normalize who → (normalize other ∈ entries after side ↔
        [normalize other, normalize other] <:+: entries account side)) ∧
      ∀ another, (entries account another).Nodup → (entries after another).Nodup := by
  obtain ⟨emptied, result, emptiedSound, frame, sublist, left⟩ :=
    emptyList_entries idempotent sound side who
  obtain ⟨touches, listed⟩ := add_touches idempotent emptiedSound side who
  refine ⟨emptied, result, listed, ?_, ?_⟩
  · intro other different
    rw [touches.others other different, left, mem_repeats]
    exact ⟨fun either => either.resolve_left fun first => different first.1.symm, .inr⟩
  · exact fun another nodup => touches.noDuplicates another
      (duplicates_of_frame frame (fun nodup => sublist.nodup nodup) another nodup)

end Calls

/-! ### The modes with one list -/

section Modes

variable (idempotent : ∀ name, normalize (normalize name) = normalize name)
  (sound : Sound normalize account)
include idempotent sound

theorem allowUsers_decides (mode : account.permDeny = .allowUsers) (who : Text) :
    Decides normalize collate account who ↔
      (entries account .permit).count (normalize who) ≤ 1 := by
  obtain ⟨adds, added⟩ := add_touches idempotent sound .permit who
  obtain ⟨removes, removed⟩ := remove_touches idempotent sound .permit who
  have addMode := adds.permDeny.trans mode
  have removeMode := removes.permDeny.trans mode
  have others : ∀ {after}, Touches normalize .permit who account after →
      ∀ other, other ≠ [] → normalize other ≠ normalize who →
        purplePrivacyCheck normalize after other = purplePrivacyCheck normalize account other := by
    intro after touches other _ different
    rw [Bool.eq_iff_iff, check_allowUsers (touches.permDeny.trans mode), check_allowUsers mode]
    exact touches.others other different
  have unlisted : purplePrivacyCheck normalize (privacyRemove normalize .permit account who).2 who =
      false ↔ (entries account .permit).count (normalize who) ≤ 1 := by
    rw [Bool.eq_false_iff, Ne, check_allowUsers removeMode]
    exact removed
  unfold Decides purplePrivacyAllow purplePrivacyDeny
  simp only [mode, Option.some.injEq, exists_eq_left']
  constructor
  · exact fun both => unlisted.mp both.2.own
  · exact fun once =>
      ⟨⟨(check_allowUsers addMode who).mpr added, others adds, adds.noDuplicates⟩,
        unlisted.mpr once, others removes, removes.noDuplicates⟩

theorem denyUsers_decides (mode : account.permDeny = .denyUsers) (who : Text) :
    Decides normalize collate account who ↔
      (entries account .deny).count (normalize who) ≤ 1 := by
  obtain ⟨adds, added⟩ := add_touches idempotent sound .deny who
  obtain ⟨removes, removed⟩ := remove_touches idempotent sound .deny who
  have addMode := adds.permDeny.trans mode
  have removeMode := removes.permDeny.trans mode
  have others : ∀ {after}, Touches normalize .deny who account after →
      ∀ other, other ≠ [] → normalize other ≠ normalize who →
        purplePrivacyCheck normalize after other = purplePrivacyCheck normalize account other := by
    intro after touches other _ different
    rw [Bool.eq_iff_iff, check_denyUsers (touches.permDeny.trans mode), check_denyUsers mode]
    exact not_congr (touches.others other different)
  have refused : purplePrivacyCheck normalize (privacyAdd normalize .deny account who).2 who =
      false := by
    rw [Bool.eq_false_iff, Ne, check_denyUsers addMode, not_not]
    exact added
  have unlisted : purplePrivacyCheck normalize (privacyRemove normalize .deny account who).2 who =
      true ↔ (entries account .deny).count (normalize who) ≤ 1 := by
    rw [check_denyUsers removeMode]
    exact removed
  unfold Decides purplePrivacyAllow purplePrivacyDeny
  simp only [mode, Option.some.injEq, exists_eq_left']
  constructor
  · exact fun both => unlisted.mp both.1.own
  · exact fun once =>
      ⟨⟨unlisted.mpr once, others removes, removes.noDuplicates⟩,
        refused, others adds, adds.noDuplicates⟩

theorem denyAll_decides (mode : account.permDeny = .denyAll) (who : Text) :
    Decides normalize collate account who ↔
      ∀ other, other ≠ [] → normalize other ≠ normalize who →
        ¬[normalize other, normalize other] <:+: entries account .permit := by
  obtain ⟨emptied, result, listed, others, noDuplicates⟩ :=
    refill_touches idempotent sound .permit who
  have denied : Decided normalize account who false account :=
    ⟨check_denyAll mode who, fun _ _ _ => rfl, fun _ => id⟩
  unfold Decides purplePrivacyAllow purplePrivacyDeny
  simp only [mode, Bool.false_eq_true, if_false, result, Option.map_some, Option.some.injEq,
    exists_eq_left']
  have check : ∀ other, purplePrivacyCheck normalize
      { (privacyAdd normalize .permit emptied who).2 with permDeny := .allowUsers } other = true ↔
        normalize other ∈ entries (privacyAdd normalize .permit emptied who).2 .permit := fun other =>
    @check_allowUsers normalize
      { (privacyAdd normalize .permit emptied who).2 with permDeny := .allowUsers } rfl other
  constructor
  · rintro ⟨allowed, -⟩ other named different
    rw [← others other different]
    intro member
    have kept := allowed.others other named different
    rw [check_denyAll mode] at kept
    exact Bool.false_ne_true (kept.symm.trans ((check other).mpr member))
  · intro apart
    refine ⟨⟨(check who).mpr listed, ?_, ?_⟩, denied⟩
    · intro other named different
      rw [check_denyAll mode, Bool.eq_false_iff, Ne]
      exact fun checks => apart other named different
        ((others other different).mp ((check other).mp checks))
    · intro side
      cases side
      · exact noDuplicates .permit
      · exact noDuplicates .deny

theorem allowAll_decides (mode : account.permDeny = .allowAll) (who : Text) :
    Decides normalize collate account who ↔
      ∀ other, other ≠ [] → normalize other ≠ normalize who →
        ¬[normalize other, normalize other] <:+: entries account .deny := by
  obtain ⟨emptied, result, listed, others, noDuplicates⟩ :=
    refill_touches idempotent sound .deny who
  have allowed : Decided normalize account who true account :=
    ⟨check_allowAll mode who, fun _ _ _ => rfl, fun _ => id⟩
  unfold Decides purplePrivacyAllow purplePrivacyDeny
  simp only [mode, Bool.false_eq_true, if_false, result, Option.map_some, Option.some.injEq,
    exists_eq_left']
  have check : ∀ other, purplePrivacyCheck normalize
      { (privacyAdd normalize .deny emptied who).2 with permDeny := .denyUsers } other = true ↔
        normalize other ∉ entries (privacyAdd normalize .deny emptied who).2 .deny := fun other =>
    @check_denyUsers normalize
      { (privacyAdd normalize .deny emptied who).2 with permDeny := .denyUsers } rfl other
  constructor
  · rintro ⟨-, denied⟩ other named different
    rw [← others other different]
    refine (check other).mp ?_
    rw [← check_allowAll mode other]
    exact denied.others other named different
  · intro apart
    refine ⟨allowed, ?_, ?_, ?_⟩
    · rw [Bool.eq_false_iff]
      exact fun checks => (check who).mp checks listed
    · intro other named different
      rw [check_allowAll mode]
      exact (check other).mpr fun member =>
        apart other named different ((others other different).mp member)
    · intro side
      cases side
      · exact noDuplicates .permit
      · exact noDuplicates .deny

end Modes

/-! ### What the buddies add -/

theorem permitted_subset {name : Text} (member : name ∈ permitted normalize collate buddies names) :
    name ∈ names ∨ ∃ buddy ∈ buddies, name = normalize buddy := by
  induction buddies generalizing names with
  | nil => exact .inl member
  | cons first rest ih =>
    rw [permitted] at member
    split at member
    · rcases ih member with old | ⟨buddy, later, isName⟩
      · exact .inl old
      · exact .inr ⟨buddy, mem_cons_of_mem _ later, isName⟩
    · rcases ih member with added | ⟨buddy, later, isName⟩
      · exact (mem_addEntry.mp added).imp_right fun isFirst =>
          ⟨first, mem_cons_self, isFirst⟩
      · exact .inr ⟨buddy, mem_cons_of_mem _ later, isName⟩

theorem permitted_mono {name : Text} (member : name ∈ names) :
    name ∈ permitted normalize collate buddies names := by
  induction buddies generalizing names with
  | nil => exact member
  | cons first rest ih =>
    rw [permitted]
    split
    · exact ih member
    · exact ih (mem_addEntry.mpr (.inl member))

theorem permitted_count {name : Text} :
    (permitted normalize collate buddies names).count name ≤ 1 ↔ names.count name ≤ 1 := by
  induction buddies generalizing names with
  | nil => exact Iff.rfl
  | cons first rest ih =>
    rw [permitted]
    split
    · exact ih
    · rw [ih, addEntry_count]

theorem permitted_nodup (nodup : names.Nodup) :
    (permitted normalize collate buddies names).Nodup := by
  rw [nodup_iff_count_le_one] at nodup ⊢
  exact fun name => permitted_count.mpr (nodup name)

theorem permitted_append (first second names : List Text) :
    permitted normalize collate (first ++ second) names =
      permitted normalize collate second (permitted normalize collate first names) := by
  induction first generalizing names with
  | nil => rfl
  | cons buddy rest ih =>
    rw [cons_append, permitted, permitted]
    split
    · exact ih names
    · exact ih _

theorem permitted_own {whole : List Text} {same : Text}
    (within : ∀ buddy ∈ buddies, buddy ∈ whole)
    (keys : ∀ name ∈ names, ∃ buddy ∈ whole, normalize buddy = name)
    (apart : ∀ other ∈ whole, normalize other ≠ normalize same →
      collate (normalize other) same = false) (member : same ∈ buddies) :
    normalize same ∈ permitted normalize collate buddies names := by
  induction buddies generalizing names with
  | nil => cases member
  | cons first rest ih =>
    have restWithin := fun buddy later => within buddy (mem_cons_of_mem _ later)
    have addedKeys : ∀ name ∈ addEntry names (normalize first),
        ∃ buddy ∈ whole, normalize buddy = name := by
      intro name inNames
      rcases mem_addEntry.mp inNames with old | rfl
      · exact keys name old
      · exact ⟨first, within first mem_cons_self, rfl⟩
    rw [permitted]
    rcases mem_cons.mp member with rfl | later
    · split
      · rename_i collates
        obtain ⟨name, inNames, equal⟩ := List.any_eq_true.mp collates
        obtain ⟨other, inWhole, rfl⟩ := keys name inNames
        -- The entry that collates can only be its own.
        by_cases own : normalize other = normalize same
        · rw [← own]
          exact permitted_mono inNames
        · rw [apart other inWhole own] at equal
          cases equal
      · exact permitted_mono (mem_addEntry.mpr (.inr rfl))
    · split
      · exact ih restWithin keys later
      · exact ih restWithin addedKeys later

theorem permitted_refused (refused : ∀ buddy ∈ buddies, ∃ name ∈ names, collate name buddy = true) :
    permitted normalize collate buddies names = names := by
  induction buddies with
  | nil => rfl
  | cons first rest ih =>
    rw [permitted, if_pos (List.any_eq_true.mpr (refused first mem_cons_self))]
    exact ih fun buddy later => refused buddy (mem_cons_of_mem _ later)

def filled (normalize : Text → Text) (collate : Text → Text → Bool) (account : PurpleAccount) :
    List Text :=
  permitted normalize collate account.buddies
    (buddiesAmong normalize account.buddies (entries account .permit))

theorem mem_buddiesAmong {name : Text} :
    name ∈ buddiesAmong normalize buddies names ↔
      name ∈ names ∧ Buddied normalize buddies name := by
  rw [buddiesAmong, mem_filter, decide_eq_true_iff]

theorem among_keys (sound : Sound normalize account) {name : Text}
    (member : name ∈ buddiesAmong normalize buddies (entries account .permit)) :
    ∃ buddy ∈ buddies, normalize buddy = name := by
  obtain ⟨listed, -, buddy, inBuddies, same⟩ := mem_buddiesAmong.mp member
  exact ⟨buddy, inBuddies, same.trans (sound.normal .permit name listed)⟩

theorem filled_keys (sound : Sound normalize account) {name : Text}
    (member : name ∈ filled normalize collate account) :
    ∃ buddy ∈ account.buddies, normalize buddy = name := by
  rcases permitted_subset member with stayed | ⟨buddy, inBuddies, rfl⟩
  · exact among_keys sound stayed
  · exact ⟨buddy, inBuddies, rfl⟩

theorem filled_nodup (nodup : (entries account .permit).Nodup) :
    (filled normalize collate account).Nodup :=
  permitted_nodup (filter_sublist.nodup nodup)

section Buddylist

variable (mode : account.permDeny = .allowBuddylist)
include mode

theorem rewritten_decided {who : Text} {decision : Bool} {after : PurpleAccount}
    (rewritten : Rewritten account after)
    (own : Buddied normalize account.buddies who ↔ decision = true) :
    Decided normalize account who decision after := by
  have check : ∀ other, purplePrivacyCheck normalize after other = true ↔
      Buddied normalize account.buddies other := by
    intro other
    rw [check_allowBuddylist (rewritten.permDeny.trans mode), rewritten.buddies]
  refine ⟨?_, ?_, ?_⟩
  · rw [Bool.eq_iff_iff, check, own]
  · intro other _ _
    rw [Bool.eq_iff_iff, check, check_allowBuddylist mode]
  · intro side nodup
    rw [rewritten_entries rewritten]
    exact nodup

/-- Where the mode is replaced by a list that differs from the list of the buddies
at most in the entry of `who`. -/
theorem replaced_decided {who : Text} {decision : Bool} {list after : PurpleAccount}
    (frame : Frame .permit account list)
    (isFilled : entries list .permit = filled normalize collate account)
    (touches : Touches normalize .permit who list after) :
    Decided normalize account who decision { after with permDeny := .allowUsers } ↔
      (normalize who ∈ entries after .permit ↔ decision = true) ∧
      ∀ other, other ≠ [] → normalize other ≠ normalize who →
        (normalize other ∈ filled normalize collate account ↔
          Buddied normalize account.buddies other) := by
  have check : ∀ other, purplePrivacyCheck normalize
      { after with permDeny := .allowUsers } other = true ↔
        normalize other ∈ entries after .permit := fun other =>
    @check_allowUsers normalize { after with permDeny := .allowUsers } rfl other
  have others : ∀ other, normalize other ≠ normalize who →
      (purplePrivacyCheck normalize { after with permDeny := .allowUsers } other =
        purplePrivacyCheck normalize account other ↔
      (normalize other ∈ filled normalize collate account ↔
        Buddied normalize account.buddies other)) := by
    intro other different
    rw [Bool.eq_iff_iff, check, check_allowBuddylist mode, touches.others other different, isFilled]
  constructor
  · intro decided
    refine ⟨?_, fun other named different =>
      (others other different).mp (decided.others other named different)⟩
    rw [← check, ← Bool.eq_iff_iff]
    exact decided.own
  · rintro ⟨own, same⟩
    refine ⟨?_, ?_, ?_⟩
    · rw [Bool.eq_iff_iff, check]
      exact own
    · exact fun other named different => (others other different).mpr (same other named different)
    · intro side nodup
      have listNodup := duplicates_of_frame frame (fun nodup => by
        rw [isFilled]
        exact filled_nodup nodup) side nodup
      have afterNodup := touches.noDuplicates side listNodup
      cases side <;> exact afterNodup

theorem allowBuddylist_decides
    (idempotent : ∀ name, normalize (normalize name) = normalize name)
    (sound : Sound normalize account) (who : Text) :
    Decides normalize collate account who ↔
      (Buddied normalize account.buddies who →
        (filled normalize collate account).count (normalize who) ≤ 1) ∧
      ∀ other, other ≠ [] → normalize other ≠ normalize who →
        (normalize other ∈ filled normalize collate account ↔
          Buddied normalize account.buddies other) := by
  have rewritten := @rewritten_find normalize account who
  obtain ⟨list, result, listSound, listFrame, isFilled⟩ :=
    @addAllBuddies_entries normalize _ collate idempotent (rewritten_sound sound rewritten)
  have frame := frame_trans (rewritten_frame rewritten .permit) listFrame
  rw [rewritten_entries rewritten, rewritten.buddies] at isFilled
  have found := @find_iff normalize account who
  unfold Decides purplePrivacyAllow purplePrivacyDeny
  by_cases buddied : Buddied normalize account.buddies who
  · have allowed : Decided normalize account who true (purpleFindBuddy normalize account who).2 :=
      rewritten_decided mode rewritten ⟨fun _ => rfl, fun _ => buddied⟩
    obtain ⟨touches, once⟩ := remove_touches idempotent listSound .permit who
    rw [isFilled] at once
    have replaced := @replaced_decided normalize collate account mode who false _ _ frame isFilled
      touches
    simp only [mode, found.mpr buddied, if_true, result, Option.map_some, Option.some.injEq,
      exists_eq_left', allowed, true_and, buddied, true_implies]
    rw [Bool.false_eq_true, iff_false, once] at replaced
    exact replaced
  · have notFound : (purpleFindBuddy normalize account who).1 = false :=
      Bool.eq_false_iff.mpr (mt found.mp buddied)
    have denied : Decided normalize account who false (purpleFindBuddy normalize account who).2 :=
      rewritten_decided mode rewritten
        ⟨fun isBuddy => absurd isBuddy buddied, fun impossible => absurd impossible Bool.false_ne_true⟩
    obtain ⟨touches, listed⟩ := add_touches idempotent listSound .permit who
    have replaced := @replaced_decided normalize collate account mode who true _ _ frame isFilled
      touches
    simp only [mode, notFound, Bool.false_eq_true, if_false, result, Option.map_some,
      Option.some.injEq, exists_eq_left', denied, and_true, buddied, false_implies, true_and]
    simp only [listed, true_and] at replaced
    exact replaced

end Buddylist

/-! ### Every order of the buddies -/

theorem sound_order (sound : Sound normalize account) (order : buddies.Perm account.buddies) :
    Sound normalize { account with buddies } :=
  sound_lists sound (fun side => by cases side <;> rfl) rfl
    fun name member => sound.named name (order.mem_iff.mp member)

theorem buddied_key (idempotent : ∀ name, normalize (normalize name) = normalize name)
    (member : buddy ∈ buddies) (named : normalize buddy ≠ []) :
    Buddied normalize buddies (normalize buddy) :=
  ⟨named, buddy, member, (idempotent buddy).symm⟩

theorem entered_order {first second : List Text} (order : first.Perm second)
    (entered : Entered normalize collate names second buddy) :
    Entered normalize collate names first buddy := by
  unfold Entered at entered ⊢
  simp only [order.mem_iff]
  exact entered

/-- The names of a buddy who is taken for others are turned away when they are
listed last. -/
theorem entered_of_filled (member : buddy ∈ account.buddies)
    (always : ∀ buddies, buddies.Perm account.buddies → ∀ who ∈ account.buddies,
      ∀ other ∈ account.buddies, normalize other ≠ normalize who →
        normalize other ∈ filled normalize collate { account with buddies }) :
    Entered normalize collate (entries account .permit) account.buddies buddy := by
  apply Classical.byContradiction
  intro notEntered
  obtain ⟨notKept, mistaken⟩ := not_or.mp notEntered
  have taken : ∀ same ∈ account.buddies, normalize same = normalize buddy →
      ∃ other ∈ account.buddies, normalize other ≠ normalize buddy ∧
        collate (normalize other) same = true := by
    intro same inBuddies isSame
    apply Classical.byContradiction
    intro never
    refine mistaken ⟨same, inBuddies, isSame, fun other inOthers different => ?_⟩
    rw [Bool.eq_false_iff]
    exact fun collates => never ⟨other, inOthers, different, collates⟩
  let differs := fun other => decide (normalize other ≠ normalize buddy)
  let others := account.buddies.filter differs
  let own := account.buddies.filter fun other => !differs other
  have order : (others ++ own).Perm account.buddies := filter_append_perm differs _
  let names := permitted normalize collate others
    (buddiesAmong normalize (others ++ own) (entries account .permit))
  have isFilled : filled normalize collate { account with buddies := others ++ own } =
      permitted normalize collate own names := permitted_append _ _ _
  have ownSame : ∀ same ∈ own, same ∈ account.buddies ∧ normalize same = normalize buddy := by
    intro same inOwn
    obtain ⟨inBuddies, isSame⟩ := mem_filter.mp inOwn
    exact ⟨inBuddies, by simpa [differs] using isSame⟩
  -- The names of the others have been entered when those of the buddy come.
  have refused : permitted normalize collate own names = names := by
    refine permitted_refused fun same inOwn => ?_
    obtain ⟨inBuddies, isSame⟩ := ownSame same inOwn
    obtain ⟨other, inOthers, different, collates⟩ := taken same inBuddies isSame
    refine ⟨normalize other, ?_, collates⟩
    have entered := always _ order buddy member other inOthers different
    rw [isFilled] at entered
    rcases permitted_subset entered with early | ⟨late, inLate, equal⟩
    · exact early
    · exact absurd (equal.trans (ownSame late inLate).2) different
  obtain ⟨other, inOthers, different, -⟩ := taken buddy member rfl
  have entered := always _ order other inOthers buddy member (Ne.symm different)
  rw [isFilled, refused] at entered
  rcases permitted_subset entered with stayed | ⟨late, inLate, equal⟩
  · obtain ⟨listed, named, -⟩ := mem_buddiesAmong.mp stayed
    exact notKept ⟨listed, named⟩
  · have apart := (mem_filter.mp inLate).2
    exact of_decide_eq_true apart equal.symm

theorem filled_once (idempotent : ∀ name, normalize (normalize name) = normalize name)
    (member : buddy ∈ account.buddies) :
    (filled normalize collate account).count (normalize buddy) ≤ 1 ↔
      (normalize buddy ≠ [] → (entries account .permit).count (normalize buddy) ≤ 1) := by
  rw [filled, permitted_count, buddiesAmong]
  by_cases named : normalize buddy = []
  · rw [named, count_eq_zero.mpr]
    · exact ⟨fun _ impossible => absurd rfl impossible, fun _ => Nat.zero_le 1⟩
    · intro inside
      exact (of_decide_eq_true (mem_filter.mp inside).2 : Buddied normalize _ []).1 rfl
  · have key : decide (Buddied normalize account.buddies (normalize buddy)) = true :=
      decide_eq_true (buddied_key idempotent member named)
    rw [count_filter (by simpa using key)]
    exact ⟨fun once _ => once, fun once => once named⟩

section Orders

variable (idempotent : ∀ name, normalize (normalize name) = normalize name)
  (sound : Sound normalize account)
include idempotent sound

theorem entered_filled {buddy : Text} (member : buddy ∈ account.buddies)
    (entered : Entered normalize collate (entries account .permit) account.buddies buddy) :
    normalize buddy ∈ filled normalize collate account := by
  rcases entered with ⟨listed, named⟩ | ⟨same, inBuddies, isSame, apart⟩
  · exact permitted_mono (mem_buddiesAmong.mpr ⟨listed, buddied_key idempotent member named⟩)
  · rw [← isSame] at apart ⊢
    exact permitted_own (fun _ => id) (fun name stayed => among_keys sound stayed) apart inBuddies

theorem right_allowBuddylist (mode : account.permDeny = .allowBuddylist) :
    Right normalize collate account ↔ ∀ buddy ∈ account.buddies,
      (normalize buddy ≠ [] → (entries account .permit).count (normalize buddy) ≤ 1) ∧
        Entered normalize collate (entries account .permit) account.buddies buddy := by
  have decides : ∀ buddies, buddies.Perm account.buddies → ∀ who,
      Decides normalize collate { account with buddies } who ↔ _ := fun buddies order who =>
    @allowBuddylist_decides normalize collate { account with buddies } mode idempotent
      (sound_order sound order) who
  constructor
  · intro right buddy member
    have named := sound.named buddy member
    have own := (decides _ (List.Perm.refl _) buddy).mp (right _ (List.Perm.refl _) buddy named)
    refine ⟨(filled_once idempotent member).mp (own.1 ⟨named, buddy, member, rfl⟩), ?_⟩
    refine entered_of_filled member ?_
    intro buddies order who inBuddies other inOthers different
    have decided := (decides _ order who).mp (right _ order who (sound.named who inBuddies))
    refine (decided.2 other (sound.named other inOthers) different).mpr ?_
    exact ⟨sound.named other inOthers, other, order.mem_iff.mpr inOthers, rfl⟩
  · intro fair buddies order who _
    have orderSound := sound_order sound order
    rw [decides _ order who]
    refine ⟨?_, ?_⟩
    · rintro ⟨-, buddy, inBuddies, same⟩
      have member := order.mem_iff.mp inBuddies
      rw [← same]
      exact (filled_once idempotent inBuddies).mpr (fair buddy member).1
    · intro other named different
      constructor
      · intro member
        obtain ⟨buddy, inBuddies, same⟩ := filled_keys orderSound member
        exact ⟨named, buddy, inBuddies, same⟩
      · rintro ⟨-, buddy, inBuddies, same⟩
        rw [← same]
        exact entered_filled idempotent orderSound inBuddies
          (entered_order order (fair buddy (order.mem_iff.mp inBuddies)).2)

end Orders

/-- A superscript two and a two collate as the same digit. -/
def plainDigit (c : Char) : Char := if c = '²' then '2' else c

def collatesPlain (first second : Text) : Bool := first.map plainDigit = second.map plainDigit

def twoBuddies : PurpleAccount :=
  { permDeny := .allowBuddylist, permit := [], deny := [], buddies := [['²'], ['2']]
    normalized := [], fresh := 0 }

theorem sound_twoBuddies : Sound id twoBuddies := by
  refine ⟨?_, ?_, ?_, by decide⟩
  · intro side
    cases side <;> exact nodup_nil
  · intro side link member
    cases side <;> cases member
  · intro side name member
    cases side <;> cases member

end Purple.Privacy
