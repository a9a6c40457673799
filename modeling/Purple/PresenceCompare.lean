/-
`purple_presence_compare` of status.c, and the priority buddy of a contact.

A sum is `none` where it runs over its type, which is undefined.  The scores of
the preferences are written by their index, and the two special indices below
are those of the source: `SCORE_IDLE_TIME` names the entry of idleness.
-/

import Purple.SavedStatuses

namespace Purple.PresenceCompare

open List Option

open SavedStatuses (PurpleStatusPrimitive)

structure ScorePrefs where
  offline : Int
  available : Int
  invisible : Int
  away : Int
  extendedAway : Int
  idle : Int
  offlineMsg : Int

/-- The values at the start, as `purple_status_init` reads them from the table. -/
def ScorePrefs.initial : ScorePrefs :=
  { offline := -500, available := 100, invisible := -50, away := -100, extendedAway := -200
    idle := 0, offlineMsg := -5 }

/-- `primitive_scores` -/
def primitiveScores (prefs : ScorePrefs) : List Int :=
  [0, prefs.offline, prefs.available, -75, prefs.invisible, prefs.away, prefs.extendedAway, -400,
    0, prefs.idle, -10, prefs.offlineMsg, 10]

def scoreIdle : Nat := 9

def scoreIdleTime : Nat := 10

def scoreOfflineMessage : Nat := 11

def scoreAt (prefs : ScorePrefs) (index : Nat) : Int := (primitiveScores prefs).getD index 0

def primitiveIndex : PurpleStatusPrimitive → Nat
  | .unset => 0
  | .offline => 1
  | .available => 2
  | .unavailable => 3
  | .invisible => 4
  | .away => 5
  | .extendedAway => 6
  | .mobile => 7
  | .tune => 8
  | .mood => 9

/-- A sum of two `int`. -/
def intSum (first second : Int) : Option Int :=
  if -2 ^ 31 ≤ first + second ∧ first + second < 2 ^ 31 then some (first + second) else none

/-- A difference of two `time_t`. -/
def timeSince (now time : Int) : Option Int :=
  if -2 ^ 63 ≤ now - time ∧ now - time < 2 ^ 63 then some (now - time) else none

structure PurpleStatus where
  primitive : PurpleStatusPrimitive
  active : Bool

/-- `offlineMessage` tells that the presence has a buddy whose account supports
offline messages to it; `accountScore` is the setting "score" of the account. -/
structure PurplePresence where
  statuses : List PurpleStatus
  activeStatus : Option PurpleStatus
  offlineMessage : Bool
  accountScore : Int
  idle : Bool
  idleTime : Int

/-- `purple_status_is_online` -/
def PurpleStatus.isOnline (status : PurpleStatus) : Bool :=
  status.primitive != .unset && status.primitive != .offline

/-- `purple_presence_is_online` -/
def PurplePresence.isOnline (presence : PurplePresence) : Bool :=
  presence.activeStatus.any PurpleStatus.isOnline

/-- `purple_presence_is_idle` -/
def PurplePresence.isIdle (presence : PurplePresence) : Bool := presence.isOnline && presence.idle

/-- One turn of the loop of `purple_presence_compute_score`. -/
def addStatus (prefs : ScorePrefs) (offlineMessage : Bool) (score : Int) (status : PurpleStatus) :
    Option Int :=
  if status.active then
    (intSum score (scoreAt prefs (primitiveIndex status.primitive))).bind fun score =>
      if !status.isOnline && offlineMessage then intSum score (scoreAt prefs scoreOfflineMessage)
      else some score
  else some score

/-- `purple_presence_compute_score` -/
def computeScore (prefs : ScorePrefs) (presence : PurplePresence) : Option Int := do
  let score ← presence.statuses.foldlM (addStatus prefs presence.offlineMessage) 0
  let score ← intSum score presence.accountScore
  if presence.isIdle then intSum score (scoreAt prefs scoreIdle) else some score

def adjustedScores (prefs : ScorePrefs) (now : Int) (presence1 presence2 : PurplePresence) :
    Option (Int × Int) := do
  let score1 ← computeScore prefs presence1
  let score2 ← computeScore prefs presence2
  let idleTime1 ← timeSince now presence1.idleTime
  let idleTime2 ← timeSince now presence2.idleTime
  if idleTime1 > idleTime2 then
    (intSum score1 (scoreAt prefs scoreIdleTime)).map fun score1 => (score1, score2)
  else if idleTime1 < idleTime2 then
    (intSum score2 (scoreAt prefs scoreIdleTime)).map fun score2 => (score1, score2)
  else some (score1, score2)

section compare

variable (prefs : ScorePrefs) (now : Int) (presence : Nat → PurplePresence)

/-- `purple_presence_compare` of two pointers; no pointer is NULL. -/
def purplePresenceCompare (presence1 presence2 : Option Nat) : Option Int :=
  if presence1 = presence2 then some 0
  else
    match presence1, presence2 with
    | none, _ => some 1
    | some _, none => some (-1)
    | some first, some second =>
      if (presence first).isOnline && !(presence second).isOnline then some (-1)
      else if (presence second).isOnline && !(presence first).isOnline then some 1
      else
        (adjustedScores prefs now (presence first) (presence second)).map fun scores =>
          if scores.1 < scores.2 then 1 else if scores.1 > scores.2 then -1 else 0

/-- A child of a contact; one that is no buddy is passed over. -/
inductive BlistNode where
  | buddy (connected : Bool) (presence : Nat)
  | other

/-- `purple_contact_compute_priority_buddy` from the buddy in hand on, which is
given with its account's connection and its presence. -/
def priorityLoop (lastMatch : Bool) (newPriority : Option (Bool × Nat)) :
    List BlistNode → Option (Option (Bool × Nat))
  | [] => some newPriority
  | .other :: rest => priorityLoop lastMatch newPriority rest
  | .buddy connected buddy :: rest =>
    match newPriority with
    | none => priorityLoop lastMatch (some (connected, buddy)) rest
    | some held =>
      if connected then
        (if held.1 then purplePresenceCompare prefs now presence (some held.2) (some buddy)
          else some 1).bind fun cmp =>
            if cmp > 0 ∨ cmp = 0 ∧ lastMatch then
              priorityLoop lastMatch (some (connected, buddy)) rest
            else priorityLoop lastMatch newPriority rest
      else priorityLoop lastMatch newPriority rest

/-- `purple_contact_compute_priority_buddy` -/
def computePriorityBuddy (lastMatch : Bool) (children : List BlistNode) :
    Option (Option (Bool × Nat)) := priorityLoop prefs now presence lastMatch none children

def AtLeast (first second : Nat) : Prop :=
  ∃ cmp, purplePresenceCompare prefs now presence (some first) (some second) = some cmp ∧ cmp ≤ 0

def Antisymmetric (pointers : List Nat) : Prop :=
  ∀ first ∈ pointers, ∀ second ∈ pointers, ∃ cmp,
    purplePresenceCompare prefs now presence (some first) (some second) = some cmp ∧
      purplePresenceCompare prefs now presence (some second) (some first) = some (-cmp)

def Transitive (pointers : List Nat) : Prop :=
  ∀ first ∈ pointers, ∀ second ∈ pointers, ∀ third ∈ pointers,
    AtLeast prefs now presence first second → AtLeast prefs now presence second third →
      AtLeast prefs now presence first third

/-- A connected buddy of the contact makes the chosen one connected and no worse. -/
def Unbeaten (lastMatch : Bool) (children : List BlistNode) : Prop :=
  ∃ chosen, computePriorityBuddy prefs now presence lastMatch children = some chosen ∧
    ∀ buddy, .buddy true buddy ∈ children →
      ∃ priority, chosen = some (true, priority) ∧ AtLeast prefs now presence priority buddy

def ConsistentRanking (pointers : List Nat) : Prop :=
  Antisymmetric prefs now presence pointers ∧ Transitive prefs now presence pointers ∧
    ∀ lastMatch children, (∀ connected buddy, .buddy connected buddy ∈ children → buddy ∈ pointers) →
      Unbeaten prefs now presence lastMatch children

/-- No sum runs over where two presences that are alike online are compared. -/
def Summed (pointers : List Nat) : Prop :=
  ∀ first ∈ pointers, ∀ second ∈ pointers, first ≠ second →
    (presence first).isOnline = (presence second).isOnline →
      (adjustedScores prefs now (presence first) (presence second)).isSome

/-- No sum runs over, and no three presences that are all online or all offline,
idle since times one after the other, have scores each at most the handicap of
10 above the next and the first at least 10 above the last. -/
structure Rankable (pointers : List Nat) : Prop where
  summed : Summed prefs now presence pointers
  spread : ∀ first ∈ pointers, ∀ second ∈ pointers, ∀ third ∈ pointers,
    (presence first).isOnline = (presence second).isOnline →
    (presence second).isOnline = (presence third).isOnline →
    (presence first).idleTime < (presence second).idleTime →
    (presence second).idleTime < (presence third).idleTime →
    ∀ score1 score2 score3, computeScore prefs (presence first) = some score1 →
      computeScore prefs (presence second) = some score2 →
      computeScore prefs (presence third) = some score3 →
      ¬(score1 - score2 ≤ 10 ∧ score2 - score3 ≤ 10 ∧ 10 ≤ score1 - score3)

end compare

variable {prefs : ScorePrefs} {now : Int} {presence : Nat → PurplePresence}

/-! ### Two presences -/

/-- What a presence loses against another that is idle for less long. -/
def handicap (first second : PurplePresence) : Int :=
  if first.idleTime < second.idleTime then 10 else 0

theorem handicap_cases (first second : PurplePresence) :
    first.idleTime < second.idleTime ∧ handicap first second = 10 ∧ handicap second first = 0 ∨
      second.idleTime < first.idleTime ∧ handicap first second = 0 ∧ handicap second first = 10 ∨
      first.idleTime = second.idleTime ∧ handicap first second = 0 ∧ handicap second first = 0 := by
  rcases Int.lt_trichotomy first.idleTime second.idleTime with longer | same | shorter
  · exact Or.inl ⟨longer, if_pos longer, if_neg (by omega)⟩
  · exact Or.inr (Or.inr ⟨same, if_neg (by omega), if_neg (by omega)⟩)
  · exact Or.inr (Or.inl ⟨shorter, if_neg (by omega), if_pos shorter⟩)

theorem intSum_some {first second total : Int} (sum : intSum first second = some total) :
    total = first + second := by
  rw [intSum] at sum
  split at sum
  · cases sum
    rfl
  · cases sum

theorem timeSince_some {time since : Int} (elapsed : timeSince now time = some since) :
    since = now - time := by
  rw [timeSince] at elapsed
  split at elapsed
  · cases elapsed
    rfl
  · cases elapsed

theorem adjusted_scores {first second : PurplePresence} {score1 score2 : Int}
    (adjusted : adjustedScores prefs now first second = some (score1, score2)) :
    computeScore prefs first = some (score1 + handicap first second) ∧
      computeScore prefs second = some (score2 + handicap second first) := by
  obtain ⟨own1, computed1, adjusted⟩ := bind_eq_some_iff.mp adjusted
  obtain ⟨own2, computed2, adjusted⟩ := bind_eq_some_iff.mp adjusted
  obtain ⟨idle1, elapsed1, adjusted⟩ := bind_eq_some_iff.mp adjusted
  obtain ⟨idle2, elapsed2, adjusted⟩ := bind_eq_some_iff.mp adjusted
  have since1 := timeSince_some elapsed1
  have since2 := timeSince_some elapsed2
  have handicapEntry : scoreAt prefs scoreIdleTime = -10 := rfl
  rw [computed1, computed2, handicap, handicap]
  split at adjusted
  · -- the first is idle for longer
    obtain ⟨less, sum, same⟩ := map_eq_some_iff.mp adjusted
    have lessened := intSum_some sum
    cases same
    rw [handicapEntry] at lessened
    rw [if_pos (by omega), if_neg (by omega), lessened]
    constructor
    · congr 1
      omega
    · rw [Int.add_zero]
  · split at adjusted
    · obtain ⟨less, sum, same⟩ := map_eq_some_iff.mp adjusted
      have lessened := intSum_some sum
      cases same
      rw [handicapEntry] at lessened
      rw [if_neg (by omega), if_pos (by omega), lessened]
      constructor
      · rw [Int.add_zero]
      · congr 1
        omega
    · cases adjusted
      rw [if_neg (by omega), if_neg (by omega), Int.add_zero, Int.add_zero]
      exact ⟨rfl, rfl⟩

theorem adjusted_swap {first second : PurplePresence} {scores : Int × Int}
    (adjusted : adjustedScores prefs now first second = some scores) :
    adjustedScores prefs now second first = some scores.swap := by
  obtain ⟨own1, computed1, adjusted⟩ := bind_eq_some_iff.mp adjusted
  obtain ⟨own2, computed2, adjusted⟩ := bind_eq_some_iff.mp adjusted
  obtain ⟨idle1, elapsed1, adjusted⟩ := bind_eq_some_iff.mp adjusted
  obtain ⟨idle2, elapsed2, adjusted⟩ := bind_eq_some_iff.mp adjusted
  rw [adjustedScores, computed1, computed2, elapsed1, elapsed2]
  simp only [bind_eq_bind, bind_some]
  split at adjusted
  · obtain ⟨less, sum, rfl⟩ := map_eq_some_iff.mp adjusted
    rw [if_neg (by omega), if_pos (by omega), sum]
    rfl
  · split at adjusted
    · obtain ⟨less, sum, rfl⟩ := map_eq_some_iff.mp adjusted
      rw [if_pos (by omega), sum]
      rfl
    · cases adjusted
      rw [if_neg (by omega), if_neg (by omega)]
      rfl

section two

variable {first second : Nat} (different : first ≠ second)

include different

theorem compare_online (online : (presence first).isOnline = true)
    (offline : (presence second).isOnline = false) :
    purplePresenceCompare prefs now presence (some first) (some second) = some (-1) ∧
      purplePresenceCompare prefs now presence (some second) (some first) = some 1 := by
  have apart : some first ≠ some second := fun same => different (Option.some.inj same)
  rw [purplePresenceCompare, purplePresenceCompare, if_neg apart, if_neg (Ne.symm apart)]
  simp only [online, offline]
  exact ⟨rfl, rfl⟩

theorem compare_alike (alike : (presence first).isOnline = (presence second).isOnline) :
    purplePresenceCompare prefs now presence (some first) (some second) =
      (adjustedScores prefs now (presence first) (presence second)).map fun scores =>
        if scores.1 < scores.2 then 1 else if scores.1 > scores.2 then -1 else 0 := by
  have apart : some first ≠ some second := fun same => different (Option.some.inj same)
  rw [purplePresenceCompare, if_neg apart]
  simp only [alike, Bool.and_not_self, Bool.false_eq_true, if_false]

end two

theorem atLeast_self (pointer : Nat) : AtLeast prefs now presence pointer pointer :=
  ⟨0, if_pos rfl, Int.le_refl 0⟩

theorem atLeast_iff {first second : Nat} (different : first ≠ second)
    (alike : (presence first).isOnline = (presence second).isOnline)
    (summed : (adjustedScores prefs now (presence first) (presence second)).isSome)
    {score1 score2 : Int} (computed1 : computeScore prefs (presence first) = some score1)
    (computed2 : computeScore prefs (presence second) = some score2) :
    AtLeast prefs now presence first second ↔
      handicap (presence first) (presence second) - handicap (presence second) (presence first) ≤
        score1 - score2 := by
  obtain ⟨⟨own1, own2⟩, adjusted⟩ := isSome_iff_exists.mp summed
  obtain ⟨same1, same2⟩ := adjusted_scores adjusted
  rw [computed1] at same1
  rw [computed2] at same2
  have exact1 := Option.some.inj same1
  have exact2 := Option.some.inj same2
  rw [AtLeast, compare_alike different alike, adjusted]
  constructor
  · rintro ⟨cmp, compared, low⟩
    have result := Option.some.inj compared
    dsimp only at result
    by_contra beaten
    rw [if_pos (by omega)] at result
    omega
  · intro ahead
    refine ⟨_, rfl, ?_⟩
    dsimp only
    rw [if_neg (by omega)]
    split <;> omega

/-! ### Sets of presences -/

variable {pointers : List Nat}

theorem antisymmetric_of_summed (summed : Summed prefs now presence pointers) :
    Antisymmetric prefs now presence pointers := by
  intro first firstIn second secondIn
  by_cases same : first = second
  · subst same
    exact ⟨0, if_pos rfl, if_pos rfl⟩
  · by_cases alike : (presence first).isOnline = (presence second).isOnline
    · obtain ⟨⟨own1, own2⟩, adjusted⟩ :=
        isSome_iff_exists.mp (summed first firstIn second secondIn same alike)
      rw [compare_alike same alike, compare_alike (Ne.symm same) alike.symm, adjusted,
        adjusted_swap adjusted]
      refine ⟨_, rfl, congrArg some ?_⟩
      dsimp only [Prod.swap]
      rcases Int.lt_trichotomy own1 own2 with less | same | more
      · rw [if_neg (show ¬own2 < own1 by omega), if_pos (show own2 > own1 by omega), if_pos less]
      · rw [if_neg (show ¬own2 < own1 by omega), if_neg (show ¬own2 > own1 by omega),
          if_neg (show ¬own1 < own2 by omega), if_neg (show ¬own1 > own2 by omega)]
        rfl
      · rw [if_pos more, if_neg (show ¬own1 < own2 by omega), if_pos (show own1 > own2 by omega)]
        rfl
    · cases firstOnline : (presence first).isOnline with
      | true =>
        have secondOffline : (presence second).isOnline = false := by
          rw [firstOnline] at alike
          exact Bool.eq_false_iff.mpr (Ne.symm alike)
        obtain ⟨ahead, behind⟩ := @compare_online prefs now presence first second same firstOnline
          secondOffline
        exact ⟨-1, ahead, behind⟩
      | false =>
        have secondOnline : (presence second).isOnline = true := by
          rw [firstOnline] at alike
          exact eq_true_of_ne_false (Ne.symm alike)
        obtain ⟨ahead, behind⟩ := @compare_online prefs now presence second first (Ne.symm same)
          secondOnline firstOnline
        exact ⟨1, behind, ahead⟩

theorem summed_of_antisymmetric (antisymmetric : Antisymmetric prefs now presence pointers) :
    Summed prefs now presence pointers := by
  intro first firstIn second secondIn different alike
  obtain ⟨cmp, compared, -⟩ := antisymmetric first firstIn second secondIn
  rw [compare_alike different alike] at compared
  obtain ⟨scores, adjusted, -⟩ := map_eq_some_iff.mp compared
  rw [adjusted]
  rfl

theorem online_of_atLeast {first second : Nat} (ahead : AtLeast prefs now presence first second)
    (online : (presence second).isOnline = true) : (presence first).isOnline = true := by
  by_contra offline
  have offline := Bool.eq_false_iff.mpr offline
  have different : second ≠ first := by
    rintro rfl
    rw [online] at offline
    cases offline
  obtain ⟨cmp, compared, low⟩ := ahead
  rw [(compare_online different online offline).2] at compared
  cases compared
  omega

theorem score_of_summed {first second : Nat}
    (summed : (adjustedScores prefs now (presence first) (presence second)).isSome) :
    ∃ score1 score2, computeScore prefs (presence first) = some score1 ∧
      computeScore prefs (presence second) = some score2 := by
  obtain ⟨scores, adjusted⟩ := isSome_iff_exists.mp summed
  obtain ⟨computed1, computed2⟩ := adjusted_scores adjusted
  exact ⟨_, _, computed1, computed2⟩

theorem transitive_of_rankable (rankable : Rankable prefs now presence pointers) :
    Transitive prefs now presence pointers := by
  intro first firstIn second secondIn third thirdIn ahead behind
  by_cases same12 : first = second
  · exact same12 ▸ behind
  by_cases same23 : second = third
  · exact same23 ▸ ahead
  by_cases same13 : first = third
  · exact same13 ▸ atLeast_self first
  by_cases alike13 : (presence first).isOnline = (presence third).isOnline
  · -- the one between them is online as they are
    have alike12 : (presence first).isOnline = (presence second).isOnline := by
      cases online : (presence second).isOnline with
      | true => exact online_of_atLeast ahead online
      | false =>
        by_contra firstOnline
        have thirdOnline : (presence third).isOnline = true := by
          rw [← alike13]
          exact eq_true_of_ne_false firstOnline
        rw [online_of_atLeast behind thirdOnline] at online
        cases online
    have alike23 := alike12.symm.trans alike13
    have summed12 := rankable.summed first firstIn second secondIn same12 alike12
    have summed23 := rankable.summed second secondIn third thirdIn same23 alike23
    have summed13 := rankable.summed first firstIn third thirdIn same13 alike13
    obtain ⟨score1, score2, computed1, computed2⟩ := score_of_summed summed12
    obtain ⟨_, score3, _, computed3⟩ := score_of_summed summed23
    rw [atLeast_iff same12 alike12 summed12 computed1 computed2] at ahead
    rw [atLeast_iff same23 alike23 summed23 computed2 computed3] at behind
    rw [atLeast_iff same13 alike13 summed13 computed1 computed3]
    have gap12 := handicap_cases (presence first) (presence second)
    have gap23 := handicap_cases (presence second) (presence third)
    have gap13 := handicap_cases (presence first) (presence third)
    -- the three orders of the idle times in which the handicaps do not add up
    have firstThirdSecond : (presence first).idleTime < (presence third).idleTime →
        (presence third).idleTime < (presence second).idleTime → 10 ≤ score1 - score3 := by
      intro early late
      by_contra close
      refine rankable.spread first firstIn third thirdIn second secondIn alike13 alike23.symm early
        late score1 score3 score2 computed1 computed3 computed2 ?_
      omega
    have secondFirstThird : (presence second).idleTime < (presence first).idleTime →
        (presence first).idleTime < (presence third).idleTime → 10 ≤ score1 - score3 := by
      intro early late
      by_contra close
      refine rankable.spread second secondIn first firstIn third thirdIn alike12.symm alike13 early
        late score2 score1 score3 computed2 computed1 computed3 ?_
      omega
    have thirdSecondFirst : (presence third).idleTime < (presence second).idleTime →
        (presence second).idleTime < (presence first).idleTime → -10 ≤ score1 - score3 := by
      intro early late
      by_contra close
      refine rankable.spread third thirdIn second secondIn first firstIn alike23.symm alike12.symm
        early late score3 score2 score1 computed3 computed2 computed1 ?_
      omega
    omega
  · cases online : (presence first).isOnline with
    | true =>
      have offline : (presence third).isOnline = false := by
        rw [online] at alike13
        exact Bool.eq_false_iff.mpr (Ne.symm alike13)
      exact ⟨-1, (compare_online same13 online offline).1, by omega⟩
    | false =>
      have thirdOnline : (presence third).isOnline = true := by
        rw [online] at alike13
        exact eq_true_of_ne_false (Ne.symm alike13)
      have firstOnline := online_of_atLeast ahead (online_of_atLeast behind thirdOnline)
      rw [online] at firstOnline
      cases firstOnline

theorem rankable_of_transitive (summed : Summed prefs now presence pointers)
    (transitive : Transitive prefs now presence pointers) : Rankable prefs now presence pointers := by
  refine ⟨summed, ?_⟩
  intro first firstIn second secondIn third thirdIn alike12 alike23 early late score1 score2 score3
    computed1 computed2 computed3 ⟨close12, close23, far13⟩
  have same12 : first ≠ second := fun same => absurd early (same ▸ Int.lt_irrefl _)
  have same23 : second ≠ third := fun same => absurd late (same ▸ Int.lt_irrefl _)
  have same13 : first ≠ third := fun same => absurd (Int.lt_trans early late) (same ▸ Int.lt_irrefl _)
  have summedOf (a : Nat) (aIn : a ∈ pointers) (b : Nat) (bIn : b ∈ pointers) := summed a aIn b bIn
  have alike13 := alike12.trans alike23
  have early13 := Int.lt_trans early late
  have handicaps : handicap (presence first) (presence second) = 10 ∧
      handicap (presence second) (presence first) = 0 ∧
      handicap (presence second) (presence third) = 10 ∧
      handicap (presence third) (presence second) = 0 ∧
      handicap (presence first) (presence third) = 10 ∧
      handicap (presence third) (presence first) = 0 := by
    refine ⟨if_pos early, if_neg ?_, if_pos late, if_neg ?_, if_pos early13, if_neg ?_⟩ <;> omega
  obtain ⟨h12, h21, h23, h32, h13, h31⟩ := handicaps
  have iff12 := atLeast_iff same12 alike12 (summed _ firstIn _ secondIn same12 alike12) computed1 computed2
  have iff21 := atLeast_iff (Ne.symm same12) alike12.symm
    (summed _ secondIn _ firstIn (Ne.symm same12) alike12.symm) computed2 computed1
  have iff23 := atLeast_iff same23 alike23 (summed _ secondIn _ thirdIn same23 alike23) computed2 computed3
  have iff32 := atLeast_iff (Ne.symm same23) alike23.symm
    (summed _ thirdIn _ secondIn (Ne.symm same23) alike23.symm) computed3 computed2
  have iff13 := atLeast_iff same13 alike13 (summed _ firstIn _ thirdIn same13 alike13) computed1 computed3
  have iff31 := atLeast_iff (Ne.symm same13) alike13.symm
    (summed _ thirdIn _ firstIn (Ne.symm same13) alike13.symm) computed3 computed1
  -- the last is no worse than the second, the second than the first, the first than the last
  have thirdSecond : AtLeast prefs now presence third second := by rw [iff32]; omega
  have secondFirst : AtLeast prefs now presence second first := by rw [iff21]; omega
  have firstThird : AtLeast prefs now presence first third := by rw [iff13]; omega
  have thirdFirst := transitive third thirdIn second secondIn first firstIn thirdSecond secondFirst
  have firstSecond := transitive first firstIn third thirdIn second secondIn firstThird thirdSecond
  have secondThird := transitive second secondIn first firstIn third thirdIn secondFirst firstThird
  rw [iff31] at thirdFirst
  rw [iff12] at firstSecond
  rw [iff23] at secondThird
  omega

/-! ### The priority buddy -/

/-- The buddy in hand is connected and no worse than every connected buddy that was passed. -/
def Holds (prefs : ScorePrefs) (now : Int) (presence : Nat → PurplePresence)
    (passed : List BlistNode) (held : Option (Bool × Nat)) : Prop :=
  ∀ buddy, .buddy true buddy ∈ passed →
    ∃ priority, held = some (true, priority) ∧ AtLeast prefs now presence priority buddy

def Known (pointers : List Nat) (children : List BlistNode) : Prop :=
  ∀ connected buddy, .buddy connected buddy ∈ children → buddy ∈ pointers

section priority

variable (antisymmetric : Antisymmetric prefs now presence pointers)
  (transitive : Transitive prefs now presence pointers)

include antisymmetric transitive

theorem holds_compared {passed : List BlistNode} {buddy priority : Nat} {cmp : Int}
    (known : Known pointers passed) (buddyIn : buddy ∈ pointers) (priorityIn : priority ∈ pointers)
    (holds : Holds prefs now presence passed (some (true, priority)))
    (compared : purplePresenceCompare prefs now presence (some priority) (some buddy) = some cmp) :
    (0 ≤ cmp → Holds prefs now presence (passed ++ [.buddy true buddy]) (some (true, buddy))) ∧
      (cmp ≤ 0 → Holds prefs now presence (passed ++ [.buddy true buddy]) (some (true, priority))) := by
  constructor
  · intro behind other member
    rcases mem_append.mp member with old | new
    · obtain ⟨held, same, ahead⟩ := holds other old
      cases same
      obtain ⟨back, forth, reverse⟩ := antisymmetric priority priorityIn buddy buddyIn
      rw [compared] at forth
      cases forth
      exact ⟨buddy, rfl, transitive buddy buddyIn priority priorityIn other (known _ _ old)
        ⟨-cmp, reverse, by omega⟩ ahead⟩
    · cases mem_singleton.mp new
      exact ⟨buddy, rfl, atLeast_self buddy⟩
  · intro ahead other member
    rcases mem_append.mp member with old | new
    · exact holds other old
    · cases mem_singleton.mp new
      exact ⟨priority, rfl, cmp, compared, ahead⟩

theorem priorityLoop_holds (lastMatch : Bool) {children : List BlistNode} :
    ∀ {passed : List BlistNode} {held : Option (Bool × Nat)}, Known pointers passed →
      Known pointers children → (∀ connected buddy, held = some (connected, buddy) → buddy ∈ pointers) →
      Holds prefs now presence passed held →
      (held = none → ∀ connected buddy, .buddy connected buddy ∉ passed) →
      ∃ chosen, priorityLoop prefs now presence lastMatch held children = some chosen ∧
        Holds prefs now presence (passed ++ children) chosen := by
  induction children with
  | nil =>
    intro passed held _ _ _ holds _
    rw [append_nil]
    exact ⟨held, rfl, holds⟩
  | cons node rest ih =>
    intro passed held knownPassed known heldIn holds empty
    have knownRest : Known pointers rest :=
      fun connected buddy member => known connected buddy (mem_cons_of_mem _ member)
    rw [show passed ++ node :: rest = passed ++ [node] ++ rest by simp]
    have knownBoth : Known pointers (passed ++ [node]) := by
      intro connected buddy member
      rcases mem_append.mp member with old | new
      · exact knownPassed connected buddy old
      · exact known connected buddy (mem_singleton.mp new ▸ mem_cons_self)
    -- a buddy that is not connected asks nothing of the one in hand
    have skipped (unconnected : ∀ buddy, node ≠ .buddy true buddy) :
        Holds prefs now presence (passed ++ [node]) held := by
      intro buddy member
      rcases mem_append.mp member with old | new
      · exact holds buddy old
      · exact absurd (mem_singleton.mp new).symm (unconnected buddy)
    cases node with
    | other =>
      rw [priorityLoop]
      refine ih knownBoth knownRest heldIn (skipped fun _ impossible => nomatch impossible) ?_
      intro none connected buddy member
      rcases mem_append.mp member with old | new
      · exact empty none connected buddy old
      · cases mem_singleton.mp new
    | buddy connected buddy =>
      have buddyIn : buddy ∈ pointers := known connected buddy mem_cons_self
      have takenIn : ∀ connected' buddy', some (connected, buddy) = some (connected', buddy') →
          buddy' ∈ pointers := by
        rintro _ _ ⟨rfl⟩
        exact buddyIn
      cases held with
      | none =>
        rw [priorityLoop]
        refine ih knownBoth knownRest takenIn ?_ (fun impossible => nomatch impossible)
        intro other member
        rcases mem_append.mp member with old | new
        · exact absurd old (empty rfl true other)
        · cases mem_singleton.mp new
          exact ⟨buddy, rfl, atLeast_self buddy⟩
      | some held =>
        obtain ⟨heldConnected, priority⟩ := held
        have priorityIn := heldIn heldConnected priority rfl
        have stays : some (heldConnected, priority) = none →
            ∀ connected' buddy', BlistNode.buddy connected' buddy' ∉
              passed ++ [.buddy connected buddy] := fun impossible => nomatch impossible
        rw [priorityLoop]
        cases connected with
        | false =>
          exact ih knownBoth knownRest heldIn
            (skipped fun _ impossible => nomatch impossible) stays
        | true =>
          cases heldConnected with
          | false =>
            -- nothing that was passed is connected
            refine ih knownBoth knownRest takenIn ?_ (fun impossible => nomatch impossible)
            intro other member
            rcases mem_append.mp member with old | new
            · obtain ⟨_, impossible, _⟩ := holds other old
              cases impossible
            · cases mem_singleton.mp new
              exact ⟨buddy, rfl, atLeast_self buddy⟩
          | true =>
            obtain ⟨cmp, compared, _⟩ := antisymmetric priority priorityIn buddy buddyIn
            obtain ⟨taken, left⟩ := holds_compared antisymmetric transitive knownPassed
              buddyIn priorityIn holds compared
            simp only [if_true, compared, bind_some]
            split
            · rename_i behind
              exact ih knownBoth knownRest takenIn (taken (by omega))
                (fun impossible => nomatch impossible)
            · rename_i ahead
              exact ih knownBoth knownRest heldIn (left (by omega)) stays

theorem unbeaten_of_ranking (lastMatch : Bool) {children : List BlistNode}
    (known : Known pointers children) : Unbeaten prefs now presence lastMatch children := by
  have nobody : Known pointers [] := by
    intro _ _ impossible
    cases impossible
  have start : Holds prefs now presence [] none := by
    intro _ impossible
    cases impossible
  exact priorityLoop_holds antisymmetric transitive lastMatch nobody known
    (fun _ _ impossible => nomatch impossible) start (fun _ _ _ impossible => nomatch impossible)

end priority

/-- The comparison ranks a set of presences if and only if no sum runs over and
no three idle times meet scores that lie within the handicap of each other. -/
theorem presences_ranked_iff (prefs : ScorePrefs) (now : Int) (presence : Nat → PurplePresence)
    (pointers : List Nat) :
    ConsistentRanking prefs now presence pointers ↔ Rankable prefs now presence pointers := by
  constructor
  · rintro ⟨antisymmetric, transitive, -⟩
    exact rankable_of_transitive (summed_of_antisymmetric antisymmetric) transitive
  · intro rankable
    have antisymmetric := antisymmetric_of_summed rankable.summed
    have transitive := transitive_of_rankable rankable
    exact ⟨antisymmetric, transitive, fun lastMatch children known =>
      unbeaten_of_ranking antisymmetric transitive lastMatch known⟩

/-- Three available buddies whose accounts score 10, 5 and 0, the first idle for longest. -/
def idlePresence (buddy : Nat) : PurplePresence :=
  { statuses := [⟨.available, true⟩], activeStatus := some ⟨.available, true⟩
    offlineMessage := false, accountScore := 10 - 5 * buddy, idle := true
    idleTime := 1000 + buddy }

/-- The first equals the last, the last beats the second and the second beats the first. -/
theorem idle_cycle :
    ¬ConsistentRanking ScorePrefs.initial 2000 idlePresence [0, 1, 2] := by
  rintro ⟨-, transitive, -⟩
  have firstLast : AtLeast ScorePrefs.initial 2000 idlePresence 0 2 := ⟨0, by decide, by decide⟩
  have lastSecond : AtLeast ScorePrefs.initial 2000 idlePresence 2 1 := ⟨-1, by decide, by decide⟩
  obtain ⟨cmp, compared, low⟩ :=
    transitive 0 (by decide) 2 (by decide) 1 (by decide) firstLast lastSecond
  have beaten : purplePresenceCompare ScorePrefs.initial 2000 idlePresence (some 0) (some 1) =
      some 1 := by decide
  rw [beaten] at compared
  cases compared
  omega

end Purple.PresenceCompare
