/-
Runs of the callbacks on preferences.

The callbacks on a preference and those above it are one list of distinct links.
A running `do_callbacks` has a place in it: what it has passed, the callback that
is being called, and what is ahead.
-/

import Mathlib.Data.List.Perm.Subperm
import Purple.PrefsCallbacks

namespace Purple.PrefsCallbacks

open List Option

open scoped List

structure Linked (callbacks : Callbacks) (nextLink : Nat) : Prop where
  fresh : ∀ pref, ∀ link ∈ links callbacks pref, link < nextLink
  distinct : ∀ pref, (links callbacks pref).Nodup
  apart : ∀ pref other link, link ∈ links callbacks pref → link ∈ links callbacks other →
    pref = other

variable {pref : Pref} {link cbs : Nat} {cb : CallbackData} {list others : List Nat} {st : State}
  {top : Activation} {tree : List Pref}

theorem mem_chainLinks {callbacks : Callbacks} :
    link ∈ chainLinks callbacks pref ↔ ∃ above, above <:+ pref ∧ link ∈ links callbacks above := by
  induction pref with
  | nil =>
    constructor
    · intro member
      exact ⟨[], suffix_refl _, member⟩
    · rintro ⟨above, suffix, member⟩
      rw [suffix_nil.mp suffix] at member
      exact member
  | cons name parent ih =>
    rw [chainLinks, mem_append, ih]
    constructor
    · rintro (here | ⟨above, suffix, member⟩)
      · exact ⟨_, suffix_refl _, here⟩
      · exact ⟨above, suffix.trans (suffix_cons _ _), member⟩
    · rintro ⟨above, suffix, member⟩
      rcases suffix_cons_iff.mp suffix with rfl | higher
      · exact Or.inl member
      · exact Or.inr ⟨above, higher, member⟩

theorem Linked.chain_nodup {callbacks : Callbacks} {nextLink : Nat}
    (linked : Linked callbacks nextLink) (pref : Pref) : (chainLinks callbacks pref).Nodup := by
  induction pref with
  | nil => exact linked.distinct []
  | cons name parent ih =>
    rw [chainLinks, nodup_append']
    refine ⟨linked.distinct _, ih, ?_⟩
    intro link here above
    obtain ⟨other, suffix, member⟩ := mem_chainLinks.mp above
    have same := linked.apart _ _ link here member
    have length := suffix.length_le
    rw [← same, length_cons] at length
    omega

theorem Linked.chain_fresh {callbacks : Callbacks} {nextLink : Nat}
    (linked : Linked callbacks nextLink) (member : link ∈ chainLinks callbacks pref) :
    link < nextLink := by
  obtain ⟨above, -, inList⟩ := mem_chainLinks.mp member
  exact linked.fresh above link inList

def Thinned (callbacks after : Callbacks) : Prop := ∀ pref, after pref <+ callbacks pref

theorem Thinned.links {callbacks after : Callbacks} (thinned : Thinned callbacks after)
    (pref : Pref) : links after pref <+ links callbacks pref := (thinned pref).map _

theorem Linked.thinned {callbacks after : Callbacks} {nextLink : Nat}
    (linked : Linked callbacks nextLink) (thinned : Thinned callbacks after) :
    Linked after nextLink :=
  { fresh := fun pref link member => linked.fresh pref link ((thinned.links pref).subset member)
    distinct := fun pref => (linked.distinct pref).sublist (thinned.links pref)
    apart := fun pref other link here there =>
      linked.apart pref other link ((thinned.links pref).subset here)
        ((thinned.links other).subset there) }

theorem filter_sublist_eq {kept whole : List Nat} (sublist : kept <+ whole) (distinct : whole.Nodup) :
    (whole.filter fun link => decide (link ∈ kept)) = kept := by
  have inside : kept <+ whole.filter fun link => decide (link ∈ kept) := by
    have filtered := sublist.filter fun link => decide (link ∈ kept)
    rwa [filter_eq_self.mpr fun link member => decide_eq_true member] at filtered
  have subset : (whole.filter fun link => decide (link ∈ kept)) ⊆ kept := by
    intro link member
    exact of_decide_eq_true (mem_filter.mp member).2
  have shorter := (subperm_of_subset (distinct.filter _) subset).length_le
  exact (inside.eq_of_length_le shorter).symm

theorem Thinned.chain {callbacks after : Callbacks} (thinned : Thinned callbacks after)
    (pref : Pref) : chainLinks after pref <+ chainLinks callbacks pref := by
  induction pref with
  | nil => exact thinned.links []
  | cons name parent ih => exact (thinned.links _).append ih

theorem discoCallbackHelper_thinned (callbacks : Callbacks) (callbackId : UInt32)
    (tree : List Pref) : Thinned callbacks (discoCallbackHelper callbacks callbackId tree) := by
  induction tree with
  | nil => exact fun _ => List.Sublist.refl _
  | cons pref rest ih =>
    rw [discoCallbackHelper]
    split
    · intro other
      by_cases same : other = pref
      · rw [same, Function.update_self]
        exact eraseP_sublist
      · rw [Function.update_of_ne same]
    · exact ih

theorem discoHandleRounds_sublist (handle rounds : Nat) (cbs : List CallbackData) :
    discoHandleRounds handle rounds cbs <+ cbs := by
  induction rounds generalizing cbs with
  | zero => exact List.Sublist.refl _
  | succ rounds ih =>
    rw [discoHandleRounds]
    split
    · exact (ih _).trans eraseP_sublist
    · exact List.Sublist.refl _

theorem discoCallbackHelperHandle_thinned (handle : Nat) (callbacks : Callbacks) (pref : Pref) :
    Thinned callbacks (discoCallbackHelperHandle handle callbacks pref) := by
  intro other
  rw [discoCallbackHelperHandle]
  by_cases same : other = pref
  · rw [same, Function.update_self]
    exact discoHandleRounds_sublist _ _ _
  · rw [Function.update_of_ne same]

theorem discoHandle_thinned (handle : Nat) (tree : List Pref) (callbacks : Callbacks) :
    Thinned callbacks (tree.foldl (discoCallbackHelperHandle handle) callbacks) := by
  induction tree generalizing callbacks with
  | nil => exact fun _ => List.Sublist.refl _
  | cons pref rest ih =>
    intro other
    exact (ih _ other).trans (discoCallbackHelperHandle_thinned handle callbacks pref other)

theorem mem_discoCallbackHelper {callbacks : Callbacks} {callbackId : UInt32}
    (other : cb.id ≠ callbackId) (member : cb ∈ callbacks pref) (tree : List Pref) :
    cb ∈ discoCallbackHelper callbacks callbackId tree pref := by
  induction tree with
  | nil => exact member
  | cons first rest ih =>
    rw [discoCallbackHelper]
    split
    · by_cases same : pref = first
      · rw [same] at member ⊢
        rw [Function.update_self]
        exact (mem_eraseP_of_neg (by simpa using other)).mpr member
      · rw [Function.update_of_ne same]
        exact member
    · exact ih

theorem mem_discoHandleRounds {handle : Nat} (other : cb.handle ≠ handle) (rounds : Nat)
    {cbs : List CallbackData} (member : cb ∈ cbs) : cb ∈ discoHandleRounds handle rounds cbs := by
  induction rounds generalizing cbs with
  | zero => exact member
  | succ rounds ih =>
    rw [discoHandleRounds]
    split
    · exact ih ((mem_eraseP_of_neg (by simpa using other)).mpr member)
    · exact member

theorem mem_discoHandle {handle : Nat} (other : cb.handle ≠ handle) (tree : List Pref)
    {callbacks : Callbacks} (member : cb ∈ callbacks pref) :
    cb ∈ tree.foldl (discoCallbackHelperHandle handle) callbacks pref := by
  induction tree generalizing callbacks with
  | nil => exact member
  | cons first rest ih =>
    apply ih
    rw [discoCallbackHelperHandle]
    by_cases same : pref = first
    · rw [same] at member ⊢
      rw [Function.update_self]
      exact mem_discoHandleRounds other _ member
    · rw [Function.update_of_ne same]
      exact member

/-! ### One more callback -/

theorem links_connect (callbacks : Callbacks) (pref other : Pref) (cb : CallbackData) :
    links (Function.update callbacks pref (callbacks pref ++ [cb])) other =
      if other = pref then links callbacks pref ++ [cb.link] else links callbacks other := by
  rw [links]
  split
  · rename_i same
    rw [same, Function.update_self, map_append]
    rfl
  · rename_i different
    rw [Function.update_of_ne different]
    rfl

theorem Linked.connect {callbacks : Callbacks} {nextLink : Nat} (linked : Linked callbacks nextLink)
    (pref : Pref) (id : UInt32) (handle : Nat) :
    Linked (Function.update callbacks pref (callbacks pref ++ [⟨nextLink, id, handle⟩]))
      (nextLink + 1) := by
  have old {other : Pref} (member : nextLink ∈ links callbacks other) : False :=
    absurd (linked.fresh other nextLink member) (Nat.lt_irrefl _)
  have inLists {other : Pref} {link : Nat}
      (member : link ∈ links (Function.update callbacks pref
        (callbacks pref ++ [⟨nextLink, id, handle⟩])) other) :
      link ∈ links callbacks other ∨ link = nextLink ∧ other = pref := by
    rw [links_connect] at member
    split at member
    · rename_i same
      rcases mem_append.mp member with was | new
      · rw [same]
        exact Or.inl was
      · exact Or.inr ⟨mem_singleton.mp new, same⟩
    · exact Or.inl member
  constructor
  · intro other link member
    rcases inLists member with was | ⟨rfl, -⟩
    · have bound := linked.fresh other link was
      omega
    · exact Nat.lt_succ_self _
  · intro other
    rw [links_connect]
    split
    · rw [nodup_append']
      refine ⟨linked.distinct pref, nodup_singleton _, ?_⟩
      intro link was new
      rw [mem_singleton.mp new] at was
      exact old was
    · exact linked.distinct other
  · intro first second link here there
    rcases inLists here with wasHere | ⟨rfl, first⟩
    · rcases inLists there with wasThere | ⟨rfl, -⟩
      · exact linked.apart first second link wasHere wasThere
      · exact (old wasHere).elim
    · rcases inLists there with wasThere | ⟨-, second⟩
      · exact (old wasThere).elim
      · rw [first, second]

theorem chain_connect (callbacks : Callbacks) (pref : Pref) (cb : CallbackData) (other : Pref) :
    ¬ pref <:+ other ∧ chainLinks (Function.update callbacks pref (callbacks pref ++ [cb])) other =
        chainLinks callbacks other ∨
      pref <:+ other ∧ ∃ front back, chainLinks callbacks other = front ++ back ∧
        chainLinks (Function.update callbacks pref (callbacks pref ++ [cb])) other =
          front ++ cb.link :: back := by
  induction other with
  | nil =>
    rw [chainLinks, chainLinks, links_connect]
    split
    · rename_i same
      refine Or.inr ⟨same ▸ suffix_refl _, links callbacks [], [], ?_, ?_⟩
      · rw [append_nil]
      · rw [same]
    · rename_i different
      exact Or.inl ⟨fun suffix => different (suffix_nil.mp suffix).symm, rfl⟩
  | cons name parent ih =>
    rw [chainLinks, chainLinks, links_connect]
    split
    · rename_i same
      have unchanged : chainLinks (Function.update callbacks pref (callbacks pref ++ [cb])) parent =
          chainLinks callbacks parent := by
        rcases ih with ⟨-, unchanged⟩ | ⟨suffix, -⟩
        · exact unchanged
        · have length := suffix.length_le
          rw [← same, length_cons] at length
          omega
      refine Or.inr ⟨same ▸ suffix_refl _, links callbacks pref, chainLinks callbacks parent,
        ?_, ?_⟩
      · rw [same]
      · rw [unchanged, append_assoc]
        rfl
    · rename_i different
      rcases ih with ⟨apart, unchanged⟩ | ⟨suffix, front, back, was, now⟩
      · refine Or.inl ⟨?_, by rw [unchanged]⟩
        intro suffix
        rcases suffix_cons_iff.mp suffix with same | higher
        · exact different same.symm
        · exact apart higher
      · refine Or.inr ⟨suffix.trans (suffix_cons _ _),
          links callbacks (name :: parent) ++ front, back, ?_, ?_⟩
        · rw [was, append_assoc]
        · rw [now, append_assoc]

/-! ### What is called next -/

theorem firstFrom_none {callbacks : Callbacks} (none : firstFrom callbacks pref = none) :
    chainLinks callbacks pref = [] := by
  induction pref with
  | nil =>
    have empty := map_eq_none_iff.mp none
    rw [chainLinks, links, head?_eq_none_iff.mp empty]
    rfl
  | cons name parent ih =>
    rw [firstFrom] at none
    rw [chainLinks, links]
    split at none
    · rename_i empty
      rw [empty, ih none]
      rfl
    · cases none

theorem firstFrom_some {callbacks : Callbacks} {cbPref : Pref}
    (first : firstFrom callbacks pref = some (cbPref, cbs)) :
    cbPref <:+ pref ∧ cbs ∈ links callbacks cbPref ∧
      ∃ ahead, chainLinks callbacks pref = cbs :: ahead := by
  induction pref with
  | nil =>
    obtain ⟨cb, head, same⟩ := map_eq_some_iff.mp first
    cases same
    obtain ⟨rest, list⟩ := head?_eq_some_iff.mp head
    rw [chainLinks, links, list]
    exact ⟨suffix_refl _, mem_cons_self, _, rfl⟩
  | cons name parent ih =>
    rw [firstFrom] at first
    rw [chainLinks]
    split at first
    · rename_i empty
      obtain ⟨suffix, member, ahead, chain⟩ := ih first
      refine ⟨suffix.trans (suffix_cons _ _), member, ahead, ?_⟩
      rw [links, empty, chain]
      rfl
    · rename_i cb rest list
      cases first
      rw [links, list]
      exact ⟨suffix_refl _, mem_cons_self, _, rfl⟩

theorem behindLink_of_mem {cbs : List CallbackData} (member : link ∈ cbs.map CallbackData.link) :
    ∃ front behind, behindLink link cbs = some behind ∧
      cbs.map CallbackData.link = front ++ link :: behind.map CallbackData.link := by
  induction cbs with
  | nil => cases member
  | cons cb rest ih =>
    rw [behindLink]
    split
    · rename_i same
      refine ⟨[], rest, rfl, ?_⟩
      rw [map_cons, same]
      rfl
    · rename_i different
      rcases mem_cons.mp member with same | later
      · exact absurd same.symm different
      · obtain ⟨front, behind, found, split⟩ := ih later
        refine ⟨cb.link :: front, behind, found, ?_⟩
        rw [map_cons, split]
        rfl

def chainAbove (callbacks : Callbacks) : Pref → List Nat
  | [] => []
  | _ :: parent => chainLinks callbacks parent

theorem chain_eq_append_above {callbacks : Callbacks} {pref cbPref : Pref} (above : cbPref <:+ pref) :
    ∃ below, chainLinks callbacks pref =
      below ++ (links callbacks cbPref ++ chainAbove callbacks cbPref) := by
  induction pref with
  | nil =>
    rw [suffix_nil.mp above]
    exact ⟨[], (append_nil _).symm⟩
  | cons name parent ih =>
    rcases suffix_cons_iff.mp above with rfl | higher
    · exact ⟨[], rfl⟩
    · obtain ⟨below, chain⟩ := ih higher
      refine ⟨links callbacks (name :: parent) ++ below, ?_⟩
      rw [chainLinks, chain, append_assoc]

/-- From a live link the loops go on to the next one of the chain, or end behind the
last one. -/
theorem nextCallback_live {callbacks : Callbacks} {cbPref : Pref} (above : cbPref <:+ pref)
    (live : cbs ∈ links callbacks cbPref) :
    ∃ next passed ahead, nextCallback callbacks cbPref cbs = some next ∧
      chainLinks callbacks pref = passed ++ cbs :: ahead ∧
      (next = none ∧ ahead = [] ∨
        ∃ nextPref link rest, next = some (nextPref, link) ∧ ahead = link :: rest ∧
          nextPref <:+ pref ∧ link ∈ links callbacks nextPref) := by
  obtain ⟨below, chain⟩ := @chain_eq_append_above callbacks pref cbPref above
  obtain ⟨front, behind, found, split⟩ := behindLink_of_mem live
  have whole : chainLinks callbacks pref =
      (below ++ front) ++ cbs :: (behind.map CallbackData.link ++ chainAbove callbacks cbPref) := by
    rw [chain, links, split]
    simp only [append_assoc, cons_append]
  rw [nextCallback, found, map_some]
  refine ⟨_, _, _, rfl, whole, ?_⟩
  cases behind with
  | cons cb rest =>
    refine Or.inr ⟨cbPref, cb.link, _, rfl, rfl, above, ?_⟩
    rw [links, split]
    exact mem_append_right _ (mem_cons_of_mem _ mem_cons_self)
  | nil =>
    cases cbPref with
    | nil => exact Or.inl ⟨rfl, rfl⟩
    | cons name parent =>
      have parentAbove : parent <:+ pref := (suffix_cons name parent).trans above
      cases first : firstFrom callbacks parent with
      | none => exact Or.inl ⟨first, firstFrom_none first⟩
      | some next =>
        obtain ⟨nextPref, link⟩ := next
        obtain ⟨suffix, member, rest, chained⟩ := firstFrom_some first
        exact Or.inr ⟨nextPref, link, rest, first, chained, suffix.trans parentAbove, member⟩

/-! ### The place of a running `do_callbacks` -/

structure Placed (callbacks : Callbacks) (nextLink : Nat) (activation : Activation)
    (passed ahead : List Nat) : Prop where
  above : activation.cbPref <:+ activation.pref
  live : activation.cbs ∈ links callbacks activation.cbPref
  chain : chainLinks callbacks activation.pref = passed ++ activation.cbs :: ahead
  old : ∀ link ∈ activation.before, link < nextLink
  distinct : activation.before.Nodup
  kept : among activation.before (chainLinks callbacks activation.pref) =
    among (chainLinks callbacks activation.pref) activation.before
  called : among (among activation.calls activation.before)
      (chainLinks callbacks activation.pref) =
    among (passed ++ [activation.cbs]) activation.before

theorem among_append (front back others : List Nat) :
    among (front ++ back) others = among front others ++ among back others := filter_append ..

theorem among_comm (list first second : List Nat) :
    among (among list first) second = among (among list second) first := by
  rw [among, among, among, among, List.filter_filter, List.filter_filter]
  apply filter_congr
  intro link _
  exact Bool.and_comm _ _

theorem among_among {part : List Nat} (inside : part ⊆ others) :
    among (among list others) part = among list part := by
  rw [among, among, among, List.filter_filter]
  apply filter_congr
  intro link _
  by_cases member : link ∈ part
  · simp only [member, inside member, decide_true, Bool.and_self]
  · simp only [member, decide_false, Bool.false_and]

theorem among_congr {first second : List Nat} (same : ∀ link ∈ list, link ∈ first ↔ link ∈ second) :
    among list first = among list second :=
  filter_congr fun link member => decide_eq_decide.mpr (same link member)

theorem among_cons_of_mem (member : link ∈ others) :
    among (link :: list) others = link :: among list others :=
  filter_cons_of_pos (decide_eq_true member)

theorem among_cons_of_not_mem (absent : link ∉ others) :
    among (link :: list) others = among list others :=
  filter_cons_of_neg fun member => absent (of_decide_eq_true member)

variable {callbacks : Callbacks} {nextLink : Nat} {activation : Activation}
  {passed ahead : List Nat}

theorem Placed.thinned (placed : Placed callbacks nextLink activation passed ahead)
    (linked : Linked callbacks nextLink) {after : Callbacks} (thinned : Thinned callbacks after)
    (live : activation.cbs ∈ links after activation.cbPref) :
    ∃ passed' ahead', Placed after nextLink activation passed' ahead' ∧
      ahead'.length ≤ ahead.length := by
  have sublist := thinned.chain activation.pref
  have inside := sublist.subset
  have whole : among (chainLinks callbacks activation.pref) (chainLinks after activation.pref) =
      chainLinks after activation.pref :=
    filter_sublist_eq sublist (linked.chain_nodup _)
  have member : activation.cbs ∈ chainLinks after activation.pref :=
    mem_chainLinks.mpr ⟨_, placed.above, live⟩
  refine ⟨among passed (chainLinks after activation.pref),
    among ahead (chainLinks after activation.pref),
    ⟨placed.above, live, ?_, placed.old, placed.distinct, ?_, ?_⟩, length_filter_le _ _⟩
  · have split := congrArg (fun list => among list (chainLinks after activation.pref)) placed.chain
    rw [whole, among_append, among_cons_of_mem member] at split
    exact split
  · calc among activation.before (chainLinks after activation.pref)
        = among (among activation.before (chainLinks callbacks activation.pref))
            (chainLinks after activation.pref) := (among_among inside).symm
      _ = among (among (chainLinks callbacks activation.pref) activation.before)
            (chainLinks after activation.pref) := by rw [placed.kept]
      _ = among (among (chainLinks callbacks activation.pref) (chainLinks after activation.pref))
            activation.before := among_comm _ _ _
      _ = among (chainLinks after activation.pref) activation.before := by rw [whole]
  · have kept : among [activation.cbs] (chainLinks after activation.pref) = [activation.cbs] :=
      among_cons_of_mem member
    calc among (among activation.calls activation.before) (chainLinks after activation.pref)
        = among (among (among activation.calls activation.before)
            (chainLinks callbacks activation.pref)) (chainLinks after activation.pref) :=
          (among_among inside).symm
      _ = among (among (passed ++ [activation.cbs]) activation.before)
            (chainLinks after activation.pref) := by rw [placed.called]
      _ = among (among (passed ++ [activation.cbs]) (chainLinks after activation.pref))
            activation.before := among_comm _ _ _
      _ = among (among passed (chainLinks after activation.pref) ++ [activation.cbs])
            activation.before := by rw [among_append, kept]

theorem insert_split {front back passed ahead : List Nat} (new : Nat)
    (split : front ++ back = passed ++ cbs :: ahead) :
    ∃ passed' ahead', front ++ new :: back = passed' ++ cbs :: ahead' ∧
      ahead'.length ≤ ahead.length + 1 ∧
      ∀ others, new ∉ others →
        among (passed' ++ [cbs]) others = among (passed ++ [cbs]) others := by
  rcases append_eq_append_iff.mp split with ⟨middle, rfl, rfl⟩ | ⟨middle, rfl, rest⟩
  · refine ⟨front ++ new :: middle, ahead, ?_, Nat.le_succ _, ?_⟩
    · rw [append_assoc]
      rfl
    · intro others absent
      rw [among_append, among_append, among_cons_of_not_mem absent, ← among_append, ← among_append]
  · cases middle with
    | nil =>
      refine ⟨passed ++ [new], ahead, ?_, Nat.le_succ _, ?_⟩
      · rw [nil_append] at rest
        rw [← rest, append_nil, append_assoc]
        rfl
      · intro others absent
        rw [among_append, among_append, among_cons_of_not_mem absent, among_append passed]
        exact congrArg (· ++ _) (append_nil _)
    | cons link middle =>
      obtain ⟨rfl, rfl⟩ := List.cons.inj rest
      refine ⟨passed, middle ++ new :: back, ?_, ?_, fun _ _ => rfl⟩
      · rw [append_assoc]
        rfl
      · change (middle ++ new :: back).length ≤ (middle ++ back).length + 1
        rw [length_append, length_append, length_cons]
        omega

theorem Placed.connect (placed : Placed callbacks nextLink activation passed ahead)
    (pref : Pref) (id : UInt32) (handle : Nat) :
    ∃ passed' ahead', Placed (Function.update callbacks pref (callbacks pref ++ [⟨nextLink, id, handle⟩]))
        (nextLink + 1) activation passed' ahead' ∧
      ahead'.length ≤ ahead.length + 1 := by
  have live : activation.cbs ∈ links (Function.update callbacks pref
      (callbacks pref ++ [⟨nextLink, id, handle⟩])) activation.cbPref := by
    rw [links_connect]
    split
    · rename_i same
      rw [← same]
      exact mem_append_left _ placed.live
    · exact placed.live
  have old : ∀ link ∈ activation.before, link < nextLink + 1 := fun link member =>
    Nat.lt_succ_of_lt (placed.old link member)
  have absent : nextLink ∉ activation.before := fun member =>
    absurd (placed.old nextLink member) (Nat.lt_irrefl _)
  rcases chain_connect callbacks pref ⟨nextLink, id, handle⟩ activation.pref with
    ⟨-, same⟩ | ⟨-, front, back, was, now⟩
  · refine ⟨passed, ahead, ⟨placed.above, live, ?_, old, placed.distinct, ?_, ?_⟩, Nat.le_succ _⟩
    · rw [same, placed.chain]
    · rw [same, placed.kept]
    · rw [same, placed.called]
  · obtain ⟨passed', ahead', split, longer, unchanged⟩ :=
      insert_split nextLink (was.symm.trans placed.chain)
    -- the new link is in no list of the history
    have sameOld (list : List Nat) : among (among list activation.before) (front ++ nextLink :: back) =
        among (among list activation.before) (front ++ back) := by
      apply among_congr
      intro link member
      have inBefore := of_decide_eq_true (mem_filter.mp member).2
      have other : link ≠ nextLink := fun same => absent (same ▸ inBefore)
      simp only [mem_append, mem_cons, other, false_or]
    refine ⟨passed', ahead', ⟨placed.above, live, now.trans split, old, placed.distinct, ?_, ?_⟩,
      longer⟩
    · have whole : among activation.before activation.before = activation.before :=
        filter_eq_self.mpr fun link member => decide_eq_true member
      have kept := sameOld activation.before
      rw [whole, ← was, placed.kept] at kept
      rw [now, kept, was, among_append, among_append, among_cons_of_not_mem absent]
    · rw [now, sameOld, ← was, placed.called, unchanged _ absent]

theorem Placed.next {rest : List Nat} {link : Nat} {nextPref : Pref}
    (placed : Placed callbacks nextLink activation passed (link :: rest))
    (above : nextPref <:+ activation.pref) (live : link ∈ links callbacks nextPref) :
    Placed callbacks nextLink
      { activation with cbPref := nextPref, cbs := link, calls := activation.calls ++ [link] }
      (passed ++ [activation.cbs]) rest := by
  have member : link ∈ chainLinks callbacks activation.pref := mem_chainLinks.mpr ⟨_, above, live⟩
  refine ⟨above, live, ?_, placed.old, placed.distinct, placed.kept, ?_⟩
  · rw [placed.chain, append_assoc]
    rfl
  · have here : among (among [link] activation.before) (chainLinks callbacks activation.pref) =
        among [link] activation.before := by
      rw [among_comm]
      exact congrArg (fun list => among list _) (among_cons_of_mem member)
    dsimp only
    rw [among_append, among_append, here, placed.called, ← among_append]

theorem Placed.ended (placed : Placed callbacks nextLink activation passed []) :
    Ended.Right ⟨activation.calls, activation.before, chainLinks callbacks activation.pref⟩ := by
  refine ⟨placed.distinct, ?_⟩
  change among (among activation.calls activation.before) (chainLinks callbacks activation.pref) =
    among activation.before (chainLinks callbacks activation.pref)
  rw [placed.called, placed.kept, placed.chain]

theorem Placed.start (linked : Linked callbacks nextLink) {cbPref : Pref}
    (above : cbPref <:+ pref) (live : cbs ∈ links callbacks cbPref)
    (chain : chainLinks callbacks pref = cbs :: ahead) :
    Placed callbacks nextLink
      { pref, cbPref, cbs, calls := [cbs], before := chainLinks callbacks pref } [] ahead := by
  have member : cbs ∈ chainLinks callbacks pref := mem_chainLinks.mpr ⟨_, above, live⟩
  have here : among [cbs] (chainLinks callbacks pref) = [cbs] := among_cons_of_mem member
  refine ⟨above, live, chain, fun link => linked.chain_fresh, linked.chain_nodup pref, rfl, ?_⟩
  dsimp only
  rw [here, here]
  exact here.symm

/-! ### Steps -/

structure Good (st : State) : Prop where
  linked : Linked st.callbacks st.nextLink
  running : ∀ activation ∈ st.running,
    ∃ passed ahead, Placed st.callbacks st.nextLink activation passed ahead
  ended : ∀ ended ∈ st.ended, ended.Right

theorem initial_good : Good initial :=
  { linked :=
      { fresh := fun _ _ impossible => nomatch impossible
        distinct := fun _ => nodup_nil
        apart := fun _ _ _ impossible => nomatch impossible }
    running := fun _ impossible => nomatch impossible
    ended := fun _ impossible => nomatch impossible }

theorem Good.doCallbacks {st : State} (good : Good st) (pref : Pref) : Good (doCallbacks st pref) := by
  rw [PrefsCallbacks.doCallbacks]
  split
  · rename_i first
    have nothing : Ended.Right
        ⟨[], chainLinks st.callbacks pref, chainLinks st.callbacks pref⟩ := by
      refine ⟨good.linked.chain_nodup pref, ?_⟩
      rw [firstFrom_none first]
      rfl
    exact ⟨good.linked, good.running, forall_mem_cons.mpr ⟨nothing, good.ended⟩⟩
  · rename_i cbPref cbs first
    obtain ⟨above, live, ahead, chain⟩ := firstFrom_some first
    exact ⟨good.linked, forall_mem_cons.mpr
      ⟨⟨[], ahead, Placed.start good.linked above live chain⟩, good.running⟩, good.ended⟩

theorem returned_cases (linked : Linked st.callbacks st.nextLink) {outer : List Activation}
    (running : st.running = top :: outer)
    (placed : Placed st.callbacks st.nextLink top passed ahead) :
    ahead = [] ∧ returned st = some { st with
        running := outer
        ended := ⟨top.calls, top.before, chainLinks st.callbacks top.pref⟩ :: st.ended } ∨
      ∃ nextPref link rest, ahead = link :: rest ∧ nextPref <:+ top.pref ∧
        link ∈ links st.callbacks nextPref ∧
        returned st = some { st with
          running :=
            { top with cbPref := nextPref, cbs := link, calls := top.calls ++ [link] } :: outer } := by
  obtain ⟨next, front, behind, found, chain, onwards⟩ := nextCallback_live placed.above placed.live
  -- the callback that is being called is in the chain once
  have distinct := linked.chain_nodup top.pref
  rw [placed.chain] at distinct chain
  obtain ⟨-, back, apart⟩ := nodup_append'.mp distinct
  have notPassed : top.cbs ∉ passed := fun member => apart member mem_cons_self
  have notAhead := (nodup_cons.mp back).1
  obtain ⟨-, -, rfl⟩ := (append_cons_inj_of_notMem notPassed notAhead).mp chain
  rw [PrefsCallbacks.returned, running]
  dsimp only
  rw [found, map_some]
  rcases onwards with ⟨rfl, rfl⟩ | ⟨nextPref, link, rest, rfl, rfl, above, live⟩
  · exact Or.inl ⟨rfl, rfl⟩
  · exact Or.inr ⟨nextPref, link, rest, rfl, above, live, rfl⟩

theorem Good.returned {st : State} (good : Good st) :
    ∃ next, returned st = some next ∧ Good next := by
  cases running : st.running with
  | nil =>
    rw [PrefsCallbacks.returned, running]
    exact ⟨st, rfl, good⟩
  | cons top outer =>
    have placedAll := good.running
    rw [running] at placedAll
    obtain ⟨⟨passed, ahead, placed⟩, others⟩ := forall_mem_cons.mp placedAll
    rcases returned_cases good.linked running placed with
      ⟨rfl, done⟩ | ⟨nextPref, link, rest, rfl, above, live, done⟩
    · exact ⟨_, done, good.linked, others, forall_mem_cons.mpr ⟨placed.ended, good.ended⟩⟩
    · exact ⟨_, done, good.linked,
        forall_mem_cons.mpr ⟨⟨_, rest, placed.next above live⟩, others⟩, good.ended⟩

theorem Good.thinned {st : State} (good : Good st) {after : Callbacks}
    (thinned : Thinned st.callbacks after)
    (live : ∀ activation ∈ st.running, activation.cbs ∈ links after activation.cbPref) :
    Good { st with callbacks := after } := by
  refine ⟨good.linked.thinned thinned, ?_, good.ended⟩
  intro activation member
  obtain ⟨passed, ahead, placed⟩ := good.running activation member
  obtain ⟨passed', ahead', now, -⟩ := placed.thinned good.linked thinned (live activation member)
  exact ⟨passed', ahead', now⟩

theorem Good.spared (good : Good st) {property : CallbackData → Prop}
    (spares : NotCalled st property) {after : Callbacks}
    (kept : ∀ pref, ∀ cb ∈ st.callbacks pref, ¬ property cb → cb ∈ after pref) :
    ∀ activation ∈ st.running, activation.cbs ∈ links after activation.cbPref := by
  intro activation member
  obtain ⟨passed, ahead, placed⟩ := good.running activation member
  obtain ⟨cb, inList, same⟩ := List.mem_map.mp placed.live
  have stays := kept _ cb inList (spares activation member cb inList same)
  rw [← same]
  exact List.mem_map_of_mem stays

theorem Good.disconnect (good : Good st) {callbackId : UInt32}
    (spares : NotCalled st fun cb => cb.id = callbackId) (tree : List Pref) :
    Good { st with callbacks := discoCallbackHelper st.callbacks callbackId tree } :=
  good.thinned (discoCallbackHelper_thinned _ _ _)
    (good.spared spares fun _ _ member other => mem_discoCallbackHelper other member tree)

theorem Good.disconnectByHandle (good : Good st) {handle : Nat}
    (spares : NotCalled st fun cb => cb.handle = handle) (tree : List Pref) :
    Good { st with callbacks := tree.foldl (discoCallbackHelperHandle handle) st.callbacks } :=
  good.thinned (discoHandle_thinned _ _ _)
    (good.spared spares fun _ _ member other => mem_discoHandle other tree member)

theorem Good.connect (good : Good st) (pref : Pref) (handle : Nat) :
    Good { st with
      callbacks := Function.update st.callbacks pref
        (st.callbacks pref ++ [{ link := st.nextLink, id := st.cbId + 1, handle }])
      cbId := st.cbId + 1
      nextLink := st.nextLink + 1 } := by
  refine ⟨good.linked.connect pref _ handle, ?_, good.ended⟩
  intro activation member
  obtain ⟨passed, ahead, placed⟩ := good.running activation member
  obtain ⟨passed', ahead', now, -⟩ := placed.connect pref (st.cbId + 1) handle
  exact ⟨passed', ahead', now⟩

/-- Every step that spares the callbacks being called is defined and keeps the
places. -/
theorem Good.perform {tree : List Pref} {st : State} {step : Step} (good : Good st)
    (spares : Spares st step) : ∃ next, perform tree st step = some next ∧ Good next := by
  cases step with
  | connect pref handle =>
    rw [PrefsCallbacks.perform]
    split
    · exact ⟨_, rfl, good.connect pref handle⟩
    · exact ⟨st, rfl, good⟩
  | disconnect callbackId => exact ⟨_, rfl, good.disconnect spares tree⟩
  | disconnectByHandle handle => exact ⟨_, rfl, good.disconnectByHandle spares tree⟩
  | set pref =>
    rw [PrefsCallbacks.perform]
    split
    · exact ⟨_, rfl, good.doCallbacks pref⟩
    · exact ⟨st, rfl, good⟩
  | ret => exact good.returned

/-! ### How many callbacks return -/

theorem running_length_le {next : State} {step : Step} (plain : step.isSet = false)
    (stepped : perform tree st step = some next) : next.running.length ≤ st.running.length := by
  cases step with
  | connect pref handle =>
    rw [PrefsCallbacks.perform] at stepped
    split at stepped
    · cases stepped
      exact Nat.le_refl _
    · cases stepped
      exact Nat.le_refl _
  | disconnect callbackId =>
    cases stepped
    exact Nat.le_refl _
  | disconnectByHandle handle =>
    cases stepped
    exact Nat.le_refl _
  | set pref => cases plain
  | ret =>
    rw [PrefsCallbacks.perform, PrefsCallbacks.returned] at stepped
    split at stepped
    · cases stepped
      exact Nat.le_refl _
    · rename_i top outer running
      rw [running]
      obtain ⟨target, -, rfl⟩ := map_eq_some_iff.mp stepped
      cases target with
      | some place => exact Nat.le_refl _
      | none => exact Nat.le_succ _

theorem run_running_length_le {steps : List Step} {last : State}
    (plain : ∀ step ∈ steps, step.isSet = false)
    (ran : PartialRun.run (perform tree) st steps = some last) :
    last.running.length ≤ st.running.length := by
  induction steps generalizing st with
  | nil =>
    cases ran
    exact Nat.le_refl _
  | cons step rest ih =>
    obtain ⟨next, stepped, ran⟩ := bind_eq_some_iff.mp ran
    obtain ⟨plainHere, plainRest⟩ := forall_mem_cons.mp plain
    exact (ih plainRest ran).trans (running_length_le plainHere stepped)

/-- The place of the `do_callbacks` started last after a step that returns to no
callback: only a connection puts more ahead of it. -/
theorem placed_step {next : State} {step : Step} (good : Good st) (spares : Spares st step)
    (plain : step.isSet = false) (inside : step ≠ .ret)
    (stepped : perform tree st step = some next) (member : top ∈ st.running)
    (placed : Placed st.callbacks st.nextLink top passed ahead) :
    next.running = st.running ∧
      ∃ passed' ahead', Placed next.callbacks next.nextLink top passed' ahead' ∧
        ahead'.length ≤ ahead.length + [step].countP Step.isConnect := by
  cases step with
  | connect pref handle =>
    rw [PrefsCallbacks.perform] at stepped
    split at stepped
    · cases stepped
      exact ⟨rfl, placed.connect pref (st.cbId + 1) handle⟩
    · cases stepped
      exact ⟨rfl, passed, ahead, placed, Nat.le_succ _⟩
  | disconnect callbackId =>
    cases stepped
    have live := good.spared spares (fun _ _ inList other =>
      mem_discoCallbackHelper other inList tree) top member
    exact ⟨rfl, placed.thinned good.linked (discoCallbackHelper_thinned _ _ _) live⟩
  | disconnectByHandle handle =>
    cases stepped
    have live := good.spared spares (fun _ _ inList other =>
      mem_discoHandle other tree inList) top member
    exact ⟨rfl, placed.thinned good.linked (discoHandle_thinned _ _ _) live⟩
  | set pref => cases plain
  | ret => exact absurd rfl inside

theorem returns_le {steps : List Step} {last : State} {outer : List Activation} (good : Good st)
    (running : st.running = top :: outer)
    (placed : Placed st.callbacks st.nextLink top passed ahead)
    (plain : ∀ step ∈ steps, step.isSet = false)
    (admitted : PartialRun.Admitted (perform tree) Spares st steps)
    (ran : PartialRun.run (perform tree) st steps = some last)
    (longer : outer.length < last.running.length) :
    steps.count .ret ≤ ahead.length + steps.countP Step.isConnect := by
  induction steps generalizing st top passed ahead with
  | nil => exact Nat.zero_le _
  | cons step rest ih =>
    obtain ⟨next, stepped, ran⟩ := bind_eq_some_iff.mp ran
    obtain ⟨plainHere, plainRest⟩ := forall_mem_cons.mp plain
    have admittedRest := admitted.2 next stepped
    by_cases returns : step = .ret
    · subst returns
      rcases returned_cases good.linked running placed with
        ⟨-, done⟩ | ⟨nextPref, link, behind, rfl, above, live, done⟩
      · cases stepped.symm.trans done
        have shorter := run_running_length_le plainRest ran
        exact absurd longer (Nat.not_lt.mpr shorter)
      · obtain ⟨other, again, goodNext⟩ := good.returned
        cases stepped.symm.trans again
        cases stepped.symm.trans done
        have bound := ih goodNext rfl (placed.next above live) plainRest admittedRest ran
        rw [count_cons_self, length_cons, countP_cons_of_neg (by decide)]
        omega
    · obtain ⟨same, passed', ahead', now, growth⟩ := placed_step good admitted.1 plainHere returns
        stepped (running ▸ mem_cons_self) placed
      obtain ⟨other, again, goodNext⟩ := @Good.perform tree _ _ good admitted.1
      cases stepped.symm.trans again
      have bound := ih goodNext (same.trans running) now plainRest admittedRest ran
      have split : (step :: rest).countP Step.isConnect =
          [step].countP Step.isConnect + rest.countP Step.isConnect :=
        @countP_append _ _ [step] rest
      rw [count_cons_of_ne returns, split]
      omega

theorem Good.terminates (good : Good st) (tree : List Pref) : Terminates tree st := by
  intro pref steps last plain admitted ran longer
  have started := good.doCallbacks pref
  cases first : firstFrom st.callbacks pref with
  | none =>
    have same : (PrefsCallbacks.doCallbacks st pref).running = st.running := by
      rw [PrefsCallbacks.doCallbacks, first]
    have shorter := run_running_length_le plain ran
    rw [same] at shorter
    exact absurd longer (Nat.not_lt.mpr shorter)
  | some place =>
    obtain ⟨cbPref, cbs⟩ := place
    obtain ⟨above, live, ahead, chain⟩ := firstFrom_some first
    have begun : PrefsCallbacks.doCallbacks st pref =
        { st with
          running :=
            { pref, cbPref, cbs, calls := [cbs], before := chainLinks st.callbacks pref } ::
              st.running } := by
      rw [PrefsCallbacks.doCallbacks, first]
    rw [begun] at started admitted ran
    have bound := returns_le started rfl (Placed.start good.linked above live chain) plain
      admitted ran longer
    rw [chain, length_cons]
    omega

def disconnectsOther : List Step :=
  [.connect [] 7, .connect [] 8, .set [], .disconnect 2, .ret]

end Purple.PrefsCallbacks
