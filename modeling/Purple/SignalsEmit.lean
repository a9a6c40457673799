/-
The loop of `purple_signal_emit_vargs` while its handlers change the registry.

The loop reads the link after the current one before it calls the handler, and
goes on from there whatever the handler did.  Reading a link that was freed
meanwhile is `none`.
-/

import Purple.SignalsOrder

namespace Purple.Signals

open List Option

open scoped List

/-- What a handler does when it is called: it may depend on all the calls made so
far, the last of which is its own.  A signal that a handler emits is the
mutations its handlers make. -/
abbrev Behaviour := List HandlerData → List Mutation

structure Emission where
  registry : Registry
  link : Option Nat
  called : List HandlerData

def addressOf (handlers : List HandlerData) : Option Nat := handlers.head?.map HandlerData.address

def linkAt (address : Nat) : List HandlerData → Option (HandlerData × Option Nat)
  | [] => none
  | handler :: rest =>
    if handler.address = address then some (handler, addressOf rest) else linkAt address rest

/-- One pass of the loop; the registry after it is the handler's doing. -/
def emitStep (behaviour : Behaviour) (inst : Pointer) (signal : SignalName)
    (emission : Emission) : Option Emission :=
  match emission.link with
  | none => some emission
  | some address =>
    match linkAt address (handlersOf emission.registry inst signal) with
    | none => none
    | some (handler, next) =>
      let called := emission.called ++ [handler]
      some
        { registry := (behaviour called).foldl mutate emission.registry, link := next, called }

def purpleSignalEmitVargs (behaviour : Behaviour) (inst : Pointer) (signal : SignalName)
    (registry : Registry) : Nat → Option Emission
  | 0 => some { registry, link := addressOf (handlersOf registry inst signal), called := [] }
  | passes + 1 =>
    (purpleSignalEmitVargs behaviour inst signal registry passes).bind
      (emitStep behaviour inst signal)

variable (behaviour : Behaviour) (inst : Pointer) (signal : SignalName) (registry : Registry)

/-- Nothing freed is read; the loop ends, with the handlers called in the order
of priority and each that stayed connected once; and none is called after it was
disconnected. -/
structure EmittedRight : Prop where
  safe : ∀ passes, purpleSignalEmitVargs behaviour inst signal registry passes ≠ none
  ends : ∃ passes last, purpleSignalEmitVargs behaviour inst signal registry passes = some last ∧
    last.link = none ∧
    last.called.Pairwise (fun left right => left.priority ≤ right.priority) ∧
    ∀ handler, (∀ pass emission,
        purpleSignalEmitVargs behaviour inst signal registry pass = some emission →
        handler ∈ handlersOf emission.registry inst signal) →
      last.called.count handler = 1
  connected : ∀ (early middle late : Nat) (first second third next : Emission)
    (handler : HandlerData), early ≤ middle → middle ≤ late →
    purpleSignalEmitVargs behaviour inst signal registry early = some first →
    purpleSignalEmitVargs behaviour inst signal registry middle = some second →
    purpleSignalEmitVargs behaviour inst signal registry late = some third →
    handler ∈ handlersOf first.registry inst signal →
    handler ∉ handlersOf second.registry inst signal →
    purpleSignalEmitVargs behaviour inst signal registry (late + 1) = some next →
    next.called ≠ third.called ++ [handler]

/-- No callback disconnects the handler that followed its own in the list when
it was called. -/
def KeepsNext : Prop :=
  ∀ passes emission address handler next,
    purpleSignalEmitVargs behaviour inst signal registry passes = some emission →
    emission.link = some address →
    linkAt address (handlersOf emission.registry inst signal) = some (handler, some next) →
    next ∈ (handlersOf ((behaviour (emission.called ++ [handler])).foldl mutate
      emission.registry) inst signal).map HandlerData.address

variable {handlers before : List HandlerData} {handler : HandlerData} {emission next : Emission}

theorem linkAt_eq_none {address : Nat} :
    linkAt address handlers = none ↔ address ∉ handlers.map HandlerData.address := by
  induction handlers with
  | nil => simp [linkAt]
  | cons handler rest ih =>
    by_cases same : handler.address = address
    · simp [linkAt, same]
    · rw [linkAt, if_neg same, ih, map_cons, mem_cons, not_or]
      exact ⟨fun absent => ⟨Ne.symm same, absent⟩, And.right⟩

theorem linkAt_eq_some {address : Nat} {next : Option Nat}
    (found : linkAt address handlers = some (handler, next)) :
    ∃ before rest, handlers = before ++ handler :: rest ∧ handler.address = address ∧
      next = addressOf rest := by
  induction handlers with
  | nil => cases found
  | cons head tail ih =>
    rw [linkAt] at found
    split at found
    · rename_i same
      cases found
      exact ⟨[], tail, rfl, same, rfl⟩
    · obtain ⟨before, rest, split, same, nextIs⟩ := ih found
      exact ⟨head :: before, rest, by rw [split, cons_append], same, nextIs⟩

theorem addressOf_eq_some {address : Nat} (first : addressOf handlers = some address) :
    ∃ head rest, handlers = head :: rest ∧ head.address = address := by
  cases handlers with
  | nil => cases first
  | cons head rest => exact ⟨head, rest, rfl, Option.some.inj first⟩

theorem linkAt_of_mem {fresh : Nat} (ordered : Ordered fresh handlers)
    (member : handler ∈ handlers) :
    ∃ next, linkAt handler.address handlers = some (handler, next) := by
  cases found : linkAt handler.address handlers with
  | none => exact absurd (List.mem_map_of_mem member) (linkAt_eq_none.mp found)
  | some result =>
    obtain ⟨other, next⟩ := result
    obtain ⟨before, rest, split, sameAddress, -⟩ := linkAt_eq_some found
    have otherMember : other ∈ handlers := by
      rw [split]
      exact mem_append_right _ mem_cons_self
    have same := inj_on_of_nodup_map ordered.distinct otherMember member sameAddress
    rw [same]
    exact ⟨next, rfl⟩

variable {behaviour inst signal registry}

theorem emitStep_spec {emission : Emission} {handler : HandlerData}
    (ordered : AllOrdered emission.registry)
    (member : handler ∈ handlersOf emission.registry inst signal)
    (atLink : emission.link = some handler.address) :
    ∃ before rest after, handlersOf emission.registry inst signal = before ++ handler :: rest ∧
      linkAt handler.address (handlersOf emission.registry inst signal) =
        some (handler, addressOf rest) ∧
      after = (behaviour (emission.called ++ [handler])).foldl mutate emission.registry ∧
      emitStep behaviour inst signal emission =
        some { registry := after, link := addressOf rest, called := emission.called ++ [handler] } ∧
      AllOrdered after ∧
      Evolves emission.registry.nextAddress (handlersOf emission.registry inst signal)
        (handlersOf after inst signal) := by
  obtain ⟨next, found⟩ := linkAt_of_mem (ordered inst signal) member
  obtain ⟨before, rest, split, -, rfl⟩ := linkAt_eq_some found
  have changed := mutations_spec ordered (behaviour (emission.called ++ [handler]))
  refine ⟨before, rest, _, split, found, rfl, ?_, changed.1, changed.2.2 inst signal⟩
  simp only [emitStep, atLink, found]

theorem emitStep_cases (stepped : emitStep behaviour inst signal emission = some next) :
    emission.link = none ∧ next = emission ∨
      ∃ handler following, handler ∈ handlersOf emission.registry inst signal ∧
        emission.link = some handler.address ∧
        next =
          { registry := (behaviour (emission.called ++ [handler])).foldl mutate emission.registry
            link := following, called := emission.called ++ [handler] } := by
  unfold emitStep at stepped
  cases atLink : emission.link with
  | none =>
    rw [atLink] at stepped
    exact Or.inl ⟨rfl, (Option.some.inj stepped).symm⟩
  | some address =>
    rw [atLink] at stepped
    cases found : linkAt address (handlersOf emission.registry inst signal) with
    | none =>
      simp only [found] at stepped
      cases stepped
    | some result =>
      obtain ⟨handler, following⟩ := result
      simp only [found, Option.some.injEq] at stepped
      obtain ⟨before, rest, split, rfl, -⟩ := linkAt_eq_some found
      refine Or.inr ⟨handler, following, ?_, rfl, stepped.symm⟩
      rw [split]
      exact mem_append_right _ mem_cons_self

/-! ### The invariant of the loop -/

variable (inst signal) in
structure Running (emission : Emission) : Prop where
  ordered : AllOrdered emission.registry
  live : ∀ address, emission.link = some address →
    ∃ handler ∈ handlersOf emission.registry inst signal, handler.address = address
  sorted : emission.called.Pairwise fun left right => left.priority ≤ right.priority
  above : ∀ handler ∈ handlersOf emission.registry inst signal,
    emission.link = some handler.address →
    ∀ earlier ∈ emission.called, earlier.priority ≤ handler.priority

theorem running_start (ordered : AllOrdered registry) :
    Running inst signal
      { registry, link := addressOf (handlersOf registry inst signal), called := [] } := by
  refine ⟨ordered, ?_, List.Pairwise.nil, fun _ _ _ _ impossible => by cases impossible⟩
  intro address first
  obtain ⟨head, rest, split, same⟩ := addressOf_eq_some first
  refine ⟨head, ?_, same⟩
  rw [show handlersOf registry inst signal = head :: rest from split]
  exact mem_cons_self

private theorem survives {fresh next : Nat} {after : List HandlerData}
    (ordered : Ordered fresh before) (evolves : Evolves fresh before after)
    (orderedAfter : Ordered next after) (member : handler ∈ before)
    (address : handler.address ∈ after.map HandlerData.address) : handler ∈ after := by
  obtain ⟨other, present, same⟩ := List.mem_map.mp address
  have below : other.address < fresh := by
    rw [same]
    exact ordered.bounded handler member
  have old : other ∈ before := by
    by_contra absent
    exact evolves.gone other below absent present
  rw [← inj_on_of_nodup_map ordered.distinct old member same]
  exact present

private theorem pass (keeps : KeepsNext behaviour inst signal registry) {passes : Nat}
    (reached : purpleSignalEmitVargs behaviour inst signal registry passes = some emission)
    (running : Running inst signal emission)
    (member : handler ∈ handlersOf emission.registry inst signal)
    (atLink : emission.link = some handler.address) :
    ∃ before rest next, handlersOf emission.registry inst signal = before ++ handler :: rest ∧
      emitStep behaviour inst signal emission = some next ∧ Running inst signal next ∧
      next.called = emission.called ++ [handler] ∧
      Evolves emission.registry.nextAddress (handlersOf emission.registry inst signal)
        (handlersOf next.registry inst signal) ∧
      (rest = [] ∧ next.link = none ∨ ∃ following tail, rest = following :: tail ∧
        next.link = some following.address ∧
        following ∈ handlersOf next.registry inst signal) := by
  obtain ⟨before, rest, after, split, found, made, stepped, orderedAfter, evolves⟩ :=
    @emitStep_spec behaviour _ _ _ _ running.ordered member atLink
  have here := running.ordered inst signal
  have calledBelow : ∀ earlier ∈ emission.called ++ [handler],
      earlier.priority ≤ handler.priority := by
    intro earlier inCalled
    rcases mem_append.mp inCalled with old | new
    · exact running.above handler member atLink earlier old
    · rw [mem_singleton.mp new]
      exact Int32.le_refl _
  have sortedNext : (emission.called ++ [handler]).Pairwise
      fun left right => left.priority ≤ right.priority := by
    refine pairwise_append.mpr ⟨running.sorted, pairwise_singleton _ _, ?_⟩
    intro earlier inCalled last isLast
    rw [mem_singleton.mp isLast]
    exact calledBelow earlier (mem_append_left _ inCalled)
  cases rest with
  | nil =>
    refine ⟨before, [], _, split, stepped, ⟨orderedAfter, ?_, sortedNext, ?_⟩, rfl, evolves,
      Or.inl ⟨rfl, rfl⟩⟩
    · intro address impossible
      cases impossible
    · intro other _ impossible
      cases impossible
  | cons following tail =>
    have followingHere : following ∈ handlersOf emission.registry inst signal := by
      rw [split]
      simp
    have kept : following ∈ handlersOf after inst signal := by
      apply survives here evolves (orderedAfter inst signal) followingHere
      rw [made]
      exact keeps passes emission handler.address handler following.address reached atLink found
    refine ⟨before, following :: tail, _, split, stepped, ⟨orderedAfter, ?_, sortedNext, ?_⟩, rfl,
      evolves, Or.inr ⟨following, tail, rfl, rfl, kept⟩⟩
    · intro address linked
      exact ⟨following, kept, Option.some.inj linked⟩
    · intro other otherKept linked earlier inCalled
      have same := inj_on_of_nodup_map (orderedAfter inst signal).distinct kept otherKept
        (Option.some.inj linked)
      rw [← same]
      have sorted := here.sorted
      rw [split] at sorted
      have below : handler.priority ≤ following.priority :=
        (pairwise_cons.mp (pairwise_append.mp sorted).2.1).1 following
          mem_cons_self
      exact Int32.le_trans (calledBelow earlier inCalled) below

theorem running_always (keeps : KeepsNext behaviour inst signal registry)
    (ordered : AllOrdered registry) (passes : Nat) :
    ∃ emission, purpleSignalEmitVargs behaviour inst signal registry passes = some emission ∧
      Running inst signal emission := by
  induction passes with
  | zero => exact ⟨_, rfl, running_start ordered⟩
  | succ passes ih =>
    obtain ⟨emission, reached, running⟩ := ih
    cases atLink : emission.link with
    | none =>
      refine ⟨emission, ?_, running⟩
      rw [purpleSignalEmitVargs, reached, bind_some, emitStep]
      simp only [atLink]
    | some address =>
      obtain ⟨handler, member, rfl⟩ := running.live address atLink
      obtain ⟨-, -, next, -, stepped, runningNext, -⟩ :=
        pass keeps reached running member atLink
      refine ⟨next, ?_, runningNext⟩
      rw [purpleSignalEmitVargs, reached, bind_some]
      exact stepped

/-! ### The loop ends -/

private theorem behind_append {rest : List HandlerData} (absent : handler ∉ before) :
    behind handler (before ++ handler :: rest) =
      rest.countP (fun other => other.priority == handler.priority) := by
  induction before with
  | nil => rw [nil_append, behind, if_pos rfl]
  | cons head tail ih =>
    rw [mem_cons, not_or] at absent
    rw [cons_append, behind, if_neg (Ne.symm absent.1)]
    exact ih absent.2

private theorem behind_next {following : HandlerData} {tail : List HandlerData}
    (distinct : (before ++ handler :: following :: tail).Nodup)
    (same : following.priority = handler.priority) :
    behind following (before ++ handler :: following :: tail) <
      behind handler (before ++ handler :: following :: tail) := by
  have handlerNew := (nodup_cons.mp (nodup_middle.mp distinct)).1
  have handlerBefore : handler ∉ before := fun member =>
    handlerNew (mem_append_left _ member)
  have regrouped : before ++ handler :: following :: tail =
      (before ++ [handler]) ++ following :: tail := by simp
  have followingBefore : following ∉ before ++ [handler] := by
    rw [regrouped] at distinct
    intro member
    exact (nodup_cons.mp (nodup_middle.mp distinct)).1 (mem_append_left _ member)
  rw [behind_append handlerBefore, regrouped, behind_append followingBefore, same,
    countP_cons_of_pos (by simp [same])]
  exact Nat.lt_succ_self _

/-- Priorities are bounded, so a new handler that the loop comes to is of higher
priority only so many times; and behind one handler no new one of its own
priority appears. -/
theorem emission_ends (keeps : KeepsNext behaviour inst signal registry)
    (ordered : AllOrdered registry) :
    ∃ passes last, purpleSignalEmitVargs behaviour inst signal registry passes = some last ∧
      last.link = none := by
  have finishes : ∀ (room count passes : Nat) (emission : Emission) (handler : HandlerData),
      purpleSignalEmitVargs behaviour inst signal registry passes = some emission →
      Running inst signal emission → handler ∈ handlersOf emission.registry inst signal →
      emission.link = some handler.address →
      (2 ^ 31 - handler.priority.toInt).toNat = room →
      behind handler (handlersOf emission.registry inst signal) = count →
      ∃ passes last, purpleSignalEmitVargs behaviour inst signal registry passes = some last ∧
        last.link = none := by
    intro room
    induction room using Nat.strongRecOn with
    | _ room higher =>
    intro count
    induction count using Nat.strongRecOn with
    | _ count fewer =>
    intro passes emission handler reached running member atLink roomIs countIs
    obtain ⟨before, rest, next, split, stepped, runningNext, -, evolves, ending⟩ :=
      pass keeps reached running member atLink
    have reachedNext : purpleSignalEmitVargs behaviour inst signal registry (passes + 1) =
        some next := by
      rw [purpleSignalEmitVargs, reached, bind_some]
      exact stepped
    rcases ending with ⟨-, done⟩ | ⟨following, tail, rfl, linked, kept⟩
    · exact ⟨passes + 1, next, reachedNext, done⟩
    · have here := running.ordered inst signal
      have sorted := here.sorted
      have distinct := here.nodup
      have followingHere : following ∈ handlersOf emission.registry inst signal := by
        rw [split]
        simp
      have left := evolves.later following followingHere kept
      rw [split] at sorted distinct left countIs
      have above : handler.priority ≤ following.priority :=
        (pairwise_cons.mp (pairwise_append.mp sorted).2.1).1 following
          mem_cons_self
      by_cases same : following.priority = handler.priority
      · have less := behind_next distinct same
        exact fewer _ (by omega) (passes + 1) next following reachedNext runningNext kept linked
          (by rw [same]; exact roomIs) rfl
      · have bounded := Int32.toInt_lt following.priority
        have up : handler.priority.toInt < following.priority.toInt := by
          have order := Int32.le_iff_toInt_le.mp above
          have different : following.priority.toInt ≠ handler.priority.toInt := fun equal =>
            same (Int32.toInt_inj.mp equal)
          omega
        exact higher _ (by omega) _ (passes + 1) next following reachedNext runningNext kept
          linked rfl rfl
  have start := @running_start inst signal registry ordered
  cases first : addressOf (handlersOf registry inst signal) with
  | none => exact ⟨0, _, rfl, first⟩
  | some address =>
    obtain ⟨handler, member, same⟩ := start.live address first
    refine finishes _ _ 0 _ handler rfl start member ?_ rfl rfl
    rw [same]
    exact first

/-! ### Each connected handler is called once -/

/-- The handler was called and stands before the link, or was not and does not. -/
private def Placed (inst : Pointer) (signal : SignalName) (handler : HandlerData)
    (emission : Emission) : Prop :=
  match emission.link with
  | none => emission.called.count handler = 1
  | some address => ∃ current ∈ handlersOf emission.registry inst signal,
      current.address = address ∧
        (emission.called.count handler = 1 ∧
            [handler, current] <+ handlersOf emission.registry inst signal ∨
          emission.called.count handler = 0 ∧
            (handler = current ∨
              [current, handler] <+ handlersOf emission.registry inst signal))

private theorem placed_start (member : handler ∈ handlersOf registry inst signal) :
    Placed inst signal handler
      { registry, link := addressOf (handlersOf registry inst signal), called := [] } := by
  cases listed : handlersOf registry inst signal with
  | nil => rw [listed] at member; cases member
  | cons head rest =>
    rw [listed] at member
    refine ⟨head, ?_, rfl, Or.inr ⟨rfl, ?_⟩⟩
    · rw [listed]
      exact mem_cons_self
    · rcases mem_cons.mp member with same | behind
      · exact Or.inl same
      · right
        rw [listed]
        exact (singleton_sublist.mpr behind).cons_cons head

private theorem placed_step (keeps : KeepsNext behaviour inst signal registry) {passes : Nat}
    (reached : purpleSignalEmitVargs behaviour inst signal registry passes = some emission)
    (running : Running inst signal emission)
    (stepped : emitStep behaviour inst signal emission = some next)
    (member : handler ∈ handlersOf emission.registry inst signal)
    (memberNext : handler ∈ handlersOf next.registry inst signal)
    (placed : Placed inst signal handler emission) : Placed inst signal handler next := by
  cases atLink : emission.link with
  | none =>
    simp only [emitStep, atLink, Option.some.injEq] at stepped
    rw [← stepped]
    exact placed
  | some address =>
    simp only [Placed, atLink] at placed
    obtain ⟨current, currentHere, rfl, position⟩ := placed
    obtain ⟨before, rest, found, split, steppedTo, -, called, evolves, ending⟩ :=
      pass keeps reached running currentHere atLink
    rw [stepped, Option.some.injEq] at steppedTo
    subst steppedTo
    have distinct := (running.ordered inst signal).nodup
    rw [split] at position member distinct
    have notBehind : ∀ other ∈ rest, ¬[other, current] <+ before ++ current :: rest :=
      fun other inRest => precedes_asymm distinct (append_precedes inRest)
    have notBefore : ∀ other ∈ before, ¬[current, other] <+ before ++ current :: rest :=
      fun other inBefore => precedes_asymm distinct (precedes_append inBefore)
    have self : ¬[current, current] <+ before ++ current :: rest :=
      nodup_iff_sublist.mp distinct current
    -- where the handler stands, and how often it was called before this pass
    have cases : (handler ∈ before ∧ emission.called.count handler = 1) ∨
        (handler = current ∧ emission.called.count handler = 0) ∨
        (handler ∈ rest ∧ emission.called.count handler = 0) := by
      rcases mem_append.mp member with inBefore | inTail
      · left
        refine ⟨inBefore, ?_⟩
        rcases position with ⟨once, -⟩ | ⟨-, rfl | behind⟩
        · exact once
        · exact absurd (precedes_append inBefore) self
        · exact absurd behind (notBefore handler inBefore)
      · right
        rcases mem_cons.mp inTail with rfl | inRest
        · left
          refine ⟨rfl, ?_⟩
          rcases position with ⟨-, impossible⟩ | ⟨never, -⟩
          · exact absurd impossible self
          · exact never
        · right
          refine ⟨inRest, ?_⟩
          rcases position with ⟨-, impossible⟩ | ⟨never, -⟩
          · exact absurd impossible (notBehind handler inRest)
          · exact never
    have counted : next.called.count handler =
        emission.called.count handler + if handler = current then 1 else 0 := by
      rw [called, count_append, count_singleton]
      congr 1
      by_cases same : handler = current
      · simp [same]
      · simp [same, Ne.symm same]
    have currentNew := (nodup_cons.mp (nodup_middle.mp distinct)).1
    rw [mem_append, not_or] at currentNew
    have order := evolves.order
    rw [split] at order
    rcases ending with ⟨rfl, done⟩ | ⟨following, tail, rfl, linked, kept⟩
    · simp only [Placed, done]
      rw [counted]
      rcases cases with ⟨inBefore, once⟩ | ⟨rfl, never⟩ | ⟨impossible, -⟩
      · have different : handler ≠ current := by
          rintro rfl
          exact currentNew.1 inBefore
        rw [once, if_neg different]
      · rw [never, if_pos rfl]
      · cases impossible
    · simp only [Placed, linked]
      refine ⟨following, kept, rfl, ?_⟩
      rw [counted]
      rcases cases with ⟨inBefore, once⟩ | ⟨rfl, never⟩ | ⟨inRest, never⟩
      · have different : handler ≠ current := by
          rintro rfl
          exact currentNew.1 inBefore
        left
        refine ⟨by rw [once, if_neg different], order handler following memberNext kept ?_⟩
        have regrouped : before ++ current :: following :: tail =
            (before ++ [current]) ++ following :: tail := by simp
        rw [regrouped]
        exact precedes_append (mem_append_left _ inBefore)
      · left
        refine ⟨by rw [never, if_pos rfl], order handler following memberNext kept ?_⟩
        exact append_precedes mem_cons_self
      · have different : handler ≠ current := by
          rintro rfl
          exact currentNew.2 inRest
        right
        refine ⟨by rw [never, if_neg different], ?_⟩
        rcases mem_cons.mp inRest with same | behind
        · exact Or.inl same
        · right
          apply order following handler kept memberNext
          have regrouped : before ++ current :: following :: tail =
              (before ++ [current]) ++ following :: tail := by simp
          rw [regrouped]
          exact append_precedes behind

private theorem placed_always (keeps : KeepsNext behaviour inst signal registry)
    (ordered : AllOrdered registry) (stays : ∀ pass emission,
      purpleSignalEmitVargs behaviour inst signal registry pass = some emission →
      handler ∈ handlersOf emission.registry inst signal) (passes : Nat) (emission : Emission)
    (reached : purpleSignalEmitVargs behaviour inst signal registry passes = some emission) :
    Placed inst signal handler emission := by
  induction passes generalizing emission with
  | zero =>
    cases reached
    exact placed_start (stays 0 _ rfl)
  | succ passes ih =>
    obtain ⟨before, reachedBefore, running⟩ := running_always keeps ordered passes
    have stepped : emitStep behaviour inst signal before = some emission := by
      rw [purpleSignalEmitVargs, reachedBefore, bind_some] at reached
      exact reached
    exact placed_step keeps reachedBefore running stepped (stays passes before reachedBefore)
      (stays (passes + 1) emission reached) (ih before reachedBefore)

/-! ### A disconnected handler stays away -/

private theorem reached_grows (keeps : KeepsNext behaviour inst signal registry)
    (ordered : AllOrdered registry) {early late : Nat} (order : early ≤ late)
    {first last : Emission}
    (reachedFirst : purpleSignalEmitVargs behaviour inst signal registry early = some first)
    (reachedLast : purpleSignalEmitVargs behaviour inst signal registry late = some last) :
    first.registry.nextAddress ≤ last.registry.nextAddress ∧
      Evolves first.registry.nextAddress (handlersOf first.registry inst signal)
        (handlersOf last.registry inst signal) := by
  induction order generalizing last with
  | refl =>
    rw [reachedFirst, Option.some.injEq] at reachedLast
    subst reachedLast
    exact ⟨Nat.le_refl _, Evolves.refl _⟩
  | @step late order ih =>
    obtain ⟨before, reachedBefore, running⟩ := running_always keeps ordered late
    obtain ⟨grows, evolves⟩ := ih reachedBefore
    have stepped : emitStep behaviour inst signal before = some last := by
      rw [purpleSignalEmitVargs, reachedBefore, bind_some] at reachedLast
      exact reachedLast
    rcases emitStep_cases stepped with ⟨-, rfl⟩ | ⟨handler, following, -, -, rfl⟩
    · exact ⟨grows, evolves⟩
    · obtain ⟨-, growsMore, evolvesMore⟩ :=
        mutations_spec running.ordered (behaviour (before.called ++ [handler]))
      obtain ⟨atFirst, reachedAgain, runningFirst⟩ := running_always keeps ordered early
      rw [reachedFirst, Option.some.injEq] at reachedAgain
      subst reachedAgain
      exact ⟨Nat.le_trans grows growsMore,
        evolves.trans (runningFirst.ordered inst signal) (evolvesMore inst signal) grows⟩

private theorem never_called_again (keeps : KeepsNext behaviour inst signal registry)
    (ordered : AllOrdered registry) {early middle late : Nat} {first second third : Emission}
    (order : early ≤ middle) (orderLate : middle ≤ late)
    (reachedFirst : purpleSignalEmitVargs behaviour inst signal registry early = some first)
    (reachedSecond : purpleSignalEmitVargs behaviour inst signal registry middle = some second)
    (reachedThird : purpleSignalEmitVargs behaviour inst signal registry late = some third)
    (present : handler ∈ handlersOf first.registry inst signal)
    (absent : handler ∉ handlersOf second.registry inst signal)
    (reachedNext : purpleSignalEmitVargs behaviour inst signal registry (late + 1) = some next) :
    next.called ≠ third.called ++ [handler] := by
  obtain ⟨atFirst, reachedAgain, running⟩ := running_always keeps ordered early
  rw [reachedFirst, Option.some.injEq] at reachedAgain
  subst reachedAgain
  obtain ⟨grows, -⟩ := reached_grows keeps ordered order reachedFirst reachedSecond
  obtain ⟨-, evolves⟩ := reached_grows keeps ordered orderLate reachedSecond reachedThird
  have below := Nat.lt_of_lt_of_le ((running.ordered inst signal).bounded handler present) grows
  have absentLate := evolves.gone handler below absent
  have stepped : emitStep behaviour inst signal third = some next := by
    rw [purpleSignalEmitVargs, reachedThird, bind_some] at reachedNext
    exact reachedNext
  intro called
  rcases emitStep_cases stepped with ⟨-, rfl⟩ | ⟨other, following, otherHere, -, rfl⟩
  · simp at called
  · have same := append_cancel_left called
    cases same
    exact absentLate otherHere

/-- The emission goes right exactly when no callback disconnects the handler
that stood next in the list when it was called. -/
theorem emitted_right_iff (calls : List Call) (behaviour : Behaviour) (inst : Pointer)
    (signal : SignalName) :
    EmittedRight behaviour inst signal (calls.foldl apply purpleSignalsInit) ↔
      KeepsNext behaviour inst signal (calls.foldl apply purpleSignalsInit) := by
  have ordered := ordered_calls calls
  generalize calls.foldl apply purpleSignalsInit = registry at ordered ⊢
  constructor
  · intro right passes emission address handler next reached atLink found
    by_contra gone
    have stepped : purpleSignalEmitVargs behaviour inst signal registry (passes + 1) =
        some
          { registry := (behaviour (emission.called ++ [handler])).foldl mutate emission.registry
            link := some next, called := emission.called ++ [handler] } := by
      rw [purpleSignalEmitVargs, reached, bind_some, emitStep]
      simp only [atLink, found]
    apply right.safe (passes + 2)
    rw [purpleSignalEmitVargs, stepped, bind_some, emitStep]
    simp only [linkAt_eq_none.mpr gone]
  · intro keeps
    refine ⟨?_, ?_, ?_⟩
    · intro passes freed
      obtain ⟨emission, reached, -⟩ := running_always keeps ordered passes
      rw [reached] at freed
      cases freed
    · obtain ⟨passes, last, reached, done⟩ := emission_ends keeps ordered
      obtain ⟨again, reachedAgain, running⟩ := running_always keeps ordered passes
      rw [reached, Option.some.injEq] at reachedAgain
      subst reachedAgain
      refine ⟨passes, last, reached, done, running.sorted, ?_⟩
      intro handler stays
      have placed := placed_always keeps ordered stays passes last reached
      simp only [Placed, done] at placed
      exact placed
    · intro early middle late first second third next handler order orderLate reachedFirst
        reachedSecond reachedThird present absent reachedNext
      exact never_called_again keeps ordered order orderLate reachedFirst reachedSecond
        reachedThird present absent reachedNext

/-- Two handlers, of which the first disconnects the second. -/
theorem next_disconnected :
    ¬EmittedRight (fun _ => [.disconnect 1 [97] 3 5]) 1 [97]
      ([.register 1 [97], .mutate (.connect 1 [97] 2 4 0 0 false),
        .mutate (.connect 1 [97] 3 5 0 1 false)].foldl apply purpleSignalsInit) := by
  intro right
  exact right.safe 2 rfl

end Purple.Signals
