/-
The permit and deny lists over runs of calls.
-/

import Purple.PartialRun
import Purple.PrivacyDecisions

namespace Purple.Privacy

open List

variable {normalize : Text → Text} {collate : Text → Text → Bool} {account : PurpleAccount}

inductive Call where
  | setPrivacyType (type : PurplePrivacyType)
  | permitAdd (who : Text)
  | permitRemove (who : Text)
  | denyAdd (who : Text)
  | denyRemove (who : Text)
  | allow (who : Text) (restore : Bool)
  | deny (who : Text) (restore : Bool)
  | setBuddies (buddies : List Text)

def call (normalize : Text → Text) (collate : Text → Text → Bool) (account : PurpleAccount) :
    Call → Option PurpleAccount
  | .setPrivacyType type => some { account with permDeny := type }
  | .permitAdd who => some (purplePrivacyPermitAdd normalize account who).2
  | .permitRemove who => some (purplePrivacyPermitRemove normalize account who).2
  | .denyAdd who => some (purplePrivacyDenyAdd normalize account who).2
  | .denyRemove who => some (purplePrivacyDenyRemove normalize account who).2
  | .allow who restore => purplePrivacyAllow normalize collate account who restore
  | .deny who restore => purplePrivacyDeny normalize collate account who restore
  | .setBuddies buddies => some { account with buddies }

def admits (_ : PurpleAccount) : Call → Prop
  | .setBuddies buddies => ∀ name ∈ buddies, name ≠ []
  | _ => True

structure Kept (normalize : Text → Text) (account : PurpleAccount) : Prop where
  sound : Sound normalize account
  nodup : ∀ side, (entries account side).Nodup

theorem kept_new : Kept normalize purpleAccountNew := by
  refine ⟨⟨?_, ?_, ?_, ?_⟩, ?_⟩
  · intro side
    cases side <;> exact nodup_nil
  · intro side link member
    cases side <;> cases member
  · intro side name member
    cases side <;> cases member
  · intro name member
    cases member
  · intro side
    cases side <;> exact nodup_nil

theorem kept_lists (kept : Kept normalize account) {after : PurpleAccount}
    (lists : ∀ side, after.list side = account.list side) (fresh : after.fresh = account.fresh)
    (named : ∀ name ∈ after.buddies, name ≠ []) : Kept normalize after := by
  refine ⟨sound_lists kept.sound lists fresh named, fun side => ?_⟩
  rw [entries, lists]
  exact kept.nodup side

theorem kept_mode (kept : Kept normalize account) (permDeny : PurplePrivacyType) :
    Kept normalize { account with permDeny } :=
  kept_lists kept (fun side => by cases side <;> rfl) rfl kept.sound.named

theorem kept_found (kept : Kept normalize account) (name : Text) :
    Kept normalize (purpleFindBuddy normalize account name).2 := by
  have rewritten := @rewritten_find normalize account name
  refine kept_lists kept rewritten.lists rewritten.fresh ?_
  rw [rewritten.buddies]
  exact kept.sound.named

section Kept

variable (idempotent : ∀ name, normalize (normalize name) = normalize name)
include idempotent

theorem kept_add (kept : Kept normalize account) (side : Side) (who : Text) :
    Kept normalize (privacyAdd normalize side account who).2 :=
  ⟨(add_entries idempotent kept.sound side who).1, fun another =>
    (add_touches idempotent kept.sound side who).1.noDuplicates another (kept.nodup another)⟩

theorem kept_remove (kept : Kept normalize account) (side : Side) (who : Text) :
    Kept normalize (privacyRemove normalize side account who).2 :=
  ⟨(remove_entries idempotent kept.sound side who).1, fun another =>
    (remove_touches idempotent kept.sound side who).1.noDuplicates another (kept.nodup another)⟩

theorem kept_empty (kept : Kept normalize account) (side : Side) (who : Text) :
    ∃ emptied, emptyList normalize side account who = some emptied ∧ Kept normalize emptied := by
  obtain ⟨emptied, result, sound, frame, sublist, -⟩ :=
    emptyList_entries idempotent kept.sound side who
  exact ⟨emptied, result, sound, fun another =>
    duplicates_of_frame frame (fun nodup => sublist.nodup nodup) another (kept.nodup another)⟩

theorem kept_fill (kept : Kept normalize account) :
    ∃ list, addAllBuddiesToPermitList normalize collate account = some list ∧
      Kept normalize list := by
  obtain ⟨list, result, sound, frame, isFilled⟩ :=
    @addAllBuddies_entries normalize account collate idempotent kept.sound
  refine ⟨list, result, sound, fun another =>
    duplicates_of_frame frame (fun nodup => ?_) another (kept.nodup another)⟩
  rw [isFilled]
  exact filled_nodup nodup

theorem kept_allow (kept : Kept normalize account) (who : Text) (restore : Bool) :
    ∃ after, purplePrivacyAllow normalize collate account who restore = some after ∧
      Kept normalize after := by
  unfold purplePrivacyAllow
  cases account.permDeny with
  | allowAll => exact ⟨account, rfl, kept⟩
  | allowUsers => exact ⟨_, rfl, kept_add idempotent kept .permit who⟩
  | denyUsers => exact ⟨_, rfl, kept_remove idempotent kept .deny who⟩
  | denyAll =>
    cases restore with
    | true => exact ⟨_, rfl, kept_mode (kept_add idempotent kept .permit who) _⟩
    | false =>
      obtain ⟨emptied, result, keptEmptied⟩ := kept_empty idempotent kept .permit who
      simp only [Bool.false_eq_true, if_false, result, Option.map_some]
      exact ⟨_, rfl, kept_mode (kept_add idempotent keptEmptied .permit who) _⟩
  | allowBuddylist =>
    have found := kept_found kept who
    obtain ⟨list, result, keptList⟩ := @kept_fill normalize collate _ idempotent found
    simp only [result, Option.map_some]
    split
    · exact ⟨_, rfl, found⟩
    · exact ⟨_, rfl, kept_mode (kept_add idempotent keptList .permit who) _⟩

theorem kept_deny (kept : Kept normalize account) (who : Text) (restore : Bool) :
    ∃ after, purplePrivacyDeny normalize collate account who restore = some after ∧
      Kept normalize after := by
  unfold purplePrivacyDeny
  cases account.permDeny with
  | denyAll => exact ⟨account, rfl, kept⟩
  | allowUsers => exact ⟨_, rfl, kept_remove idempotent kept .permit who⟩
  | denyUsers => exact ⟨_, rfl, kept_add idempotent kept .deny who⟩
  | allowAll =>
    cases restore with
    | true => exact ⟨_, rfl, kept_mode (kept_add idempotent kept .deny who) _⟩
    | false =>
      obtain ⟨emptied, result, keptEmptied⟩ := kept_empty idempotent kept .deny who
      simp only [Bool.false_eq_true, if_false, result, Option.map_some]
      exact ⟨_, rfl, kept_mode (kept_add idempotent keptEmptied .deny who) _⟩
  | allowBuddylist =>
    have found := kept_found kept who
    obtain ⟨list, result, keptList⟩ := @kept_fill normalize collate _ idempotent found
    simp only [result, Option.map_some]
    split
    · exact ⟨_, rfl, kept_mode (kept_remove idempotent keptList .permit who) _⟩
    · exact ⟨_, rfl, found⟩

theorem kept_call (kept : Kept normalize account) {made : Call} (admitted : admits account made) :
    ∃ after, call normalize collate account made = some after ∧ Kept normalize after := by
  cases made with
  | setPrivacyType type => exact ⟨_, rfl, kept_mode kept type⟩
  | permitAdd who => exact ⟨_, rfl, kept_add idempotent kept .permit who⟩
  | permitRemove who => exact ⟨_, rfl, kept_remove idempotent kept .permit who⟩
  | denyAdd who => exact ⟨_, rfl, kept_add idempotent kept .deny who⟩
  | denyRemove who => exact ⟨_, rfl, kept_remove idempotent kept .deny who⟩
  | allow who restore => exact kept_allow idempotent kept who restore
  | deny who restore => exact kept_deny idempotent kept who restore
  | setBuddies buddies =>
    exact ⟨_, rfl, kept_lists kept (fun side => by cases side <;> rfl) rfl admitted⟩

theorem account_kept {calls done : List Call}
    (admitted : PartialRun.Admitted (call normalize collate) admits purpleAccountNew calls)
    (initial : done <+: calls) :
    ∃ last, PartialRun.run (call normalize collate) purpleAccountNew done = some last ∧
      Kept normalize last :=
  PartialRun.reached (Kept normalize) (fun _ _ kept allowed => kept_call idempotent kept allowed)
    kept_new admitted initial

end Kept

theorem kept_right_iff (idempotent : ∀ name, normalize (normalize name) = normalize name)
    (kept : Kept normalize account) :
    Right normalize collate account ↔
      (account.permDeny = .allowBuddylist → ∀ buddy ∈ account.buddies,
        Entered normalize collate (entries account .permit) account.buddies buddy) := by
  have once : ∀ side name, (entries account side).count name ≤ 1 := fun side name =>
    nodup_iff_count_le_one.mp (kept.nodup side) name
  have apart : ∀ side name, ¬[name, name] <:+: entries account side := by
    intro side name neighbours
    have twice := neighbours.sublist.count_le name
    rw [count_cons_self, count_cons_self, count_nil] at twice
    exact absurd (Nat.le_trans twice (once side name)) (by decide)
  have ordered : ∀ {buddies}, buddies.Perm account.buddies →
      Sound normalize { account with buddies } := sound_order kept.sound
  cases mode : account.permDeny with
  | allowAll =>
    refine ⟨fun _ => nofun, fun _ buddies order who _ => ?_⟩
    exact (allowAll_decides idempotent (ordered order) mode who).mpr fun _ _ _ => apart .deny _
  | denyAll =>
    refine ⟨fun _ => nofun, fun _ buddies order who _ => ?_⟩
    exact (denyAll_decides idempotent (ordered order) mode who).mpr fun _ _ _ => apart .permit _
  | allowUsers =>
    refine ⟨fun _ => nofun, fun _ buddies order who _ => ?_⟩
    exact (allowUsers_decides idempotent (ordered order) mode who).mpr (once .permit _)
  | denyUsers =>
    refine ⟨fun _ => nofun, fun _ buddies order who _ => ?_⟩
    exact (denyUsers_decides idempotent (ordered order) mode who).mpr (once .deny _)
  | allowBuddylist =>
    rw [right_allowBuddylist idempotent kept.sound mode]
    exact ⟨fun fair _ buddy member => (fair buddy member).2,
      fun entered buddy member => ⟨fun _ => once .permit _, entered rfl buddy member⟩⟩

end Purple.Privacy
