/-
The references to the exts of a node.

Each of them is a field of the world: a value of `nodetable`, the `exts` of an
info, or the `nodeExts` of a lookup's user data.  The counter of the exts is the
number of these fields, with the references that a function still holds.
-/

import Purple.Jabber.Caps

namespace Purple.Jabber.Caps

open List Option

def heldBy (user : Option UserData) : Option Nat := user.bind (·.nodeExts)

def holders (world : World) (at' : Nat) : Nat :=
  world.nodetable.countP (·.2 = at') + world.infos.countP (·.exts = some at') +
    world.userdata.countP (heldBy · = some at')

def refs (world : World) (at' : Nat) : Nat := (world.exts at').elim 0 (·.ref)

/-- The counters are the numbers of holders, `carried` being those of the running function. -/
def CountedWith (world : World) (carried : List Nat) : Prop :=
  ∀ at', refs world at' = holders world at' + carried.count at'

def one (condition : Prop) [Decidable condition] : Nat := if condition then 1 else 0

theorem one_none (at' : Nat) : one (heldBy none = some at') = 0 := rfl

theorem countP_set_add {Item : Type} (counts : Item → Bool) (items : List Item) {index : Nat}
    {old : Item} (there : items[index]? = some old) (new : Item) :
    (items.set index new).countP counts + one (counts old) =
      items.countP counts + one (counts new) := by
  induction items generalizing index with
  | nil => cases there
  | cons head rest ih =>
    cases index with
    | zero =>
      cases there
      simp only [set_cons_zero, countP_cons, one]
      omega
    | succ index =>
      have later := ih there
      simp only [set_cons_succ, countP_cons]
      omega

variable {world : World} {carried : List Nat} {at' lookup : Nat} {user : UserData}

theorem exts_of_refs (positive : 0 < refs world at') :
    ∃ exts, world.exts at' = some exts ∧ refs world at' = exts.ref := by
  cases found : world.exts at' with
  | none =>
    rw [refs, found] at positive
    exact absurd positive (Nat.lt_irrefl 0)
  | some exts => exact ⟨exts, rfl, by rw [refs, found]; rfl⟩

theorem exts_slot {exts : JabberCapsNodeExts} (found : world.exts at' = some exts) :
    world.nodeExts[at']? = some (some exts) := join_eq_some_iff.mp found

theorem refs_putExts {old : JabberCapsNodeExts} (found : world.exts at' = some old)
    (new : Option JabberCapsNodeExts) (other : Nat) :
    refs (world.putExts at' new) other =
      if other = at' then new.elim 0 (·.ref) else refs world other := by
  have slot := exts_slot found
  have bound : at' < world.nodeExts.length := (List.getElem?_eq_some_iff.mp slot).1
  change (((world.nodeExts.set at' new)[other]?).join).elim 0 (·.ref) = _
  by_cases same : other = at'
  · rw [if_pos same, same, getElem?_set_self bound]
    rfl
  · rw [if_neg same, getElem?_set_ne (Ne.symm same)]
    rfl

theorem unref_counted (counted : CountedWith world (at' :: carried)) :
    ∃ nodeExts, jabberCapsNodeExtsUnref world at' = some { world with nodeExts := nodeExts } ∧
      CountedWith { world with nodeExts := nodeExts } carried := by
  have here := counted at'
  rw [count_cons_self] at here
  obtain ⟨exts, found, same⟩ := exts_of_refs (show 0 < refs world at' by omega)
  have lowered (new : Option JabberCapsNodeExts) (value : new.elim 0 (·.ref) = exts.ref - 1) :
      CountedWith (world.putExts at' new) carried := by
    intro other
    have before := counted other
    rw [refs_putExts found]
    change _ = holders world other + _
    by_cases equal : other = at'
    · rw [if_pos equal, equal, value]
      omega
    · rw [count_cons_of_ne (Ne.symm equal)] at before
      rw [if_neg equal]
      exact before
  rw [jabberCapsNodeExtsUnref, found, map_some]
  by_cases last : exts.ref = 1
  · rw [if_neg (by omega), if_pos last]
    exact ⟨_, rfl, lowered none (by rw [last]; rfl)⟩
  · rw [if_neg (by omega), if_neg last]
    exact ⟨_, rfl, lowered (some { exts with ref := exts.ref - 1 }) rfl⟩

theorem unrefOptional_counted {held : Option Nat}
    (counted : CountedWith world (held.toList ++ carried)) :
    ∃ nodeExts, unrefOptional world held = some { world with nodeExts := nodeExts } ∧
      CountedWith { world with nodeExts := nodeExts } carried := by
  cases held with
  | none => exact ⟨world.nodeExts, rfl, counted⟩
  | some at' => exact unref_counted counted

theorem unrefOptional_putUser (world : World) (held : Option Nat) (lookup : Nat)
    (user : Option UserData) :
    unrefOptional (world.putUser lookup user) held =
      (unrefOptional world held).map fun world => world.putUser lookup user := by
  cases held with
  | none => rfl
  | some at' =>
    change ((world.exts at').map _) = ((world.exts at').map _).map _
    rw [Option.map_map]
    congr 1
    funext exts
    change (if exts.ref = 0 then world.putUser lookup user else _) =
      World.putUser (if exts.ref = 0 then world else _) lookup user
    split
    · rfl
    · split <;> rfl

theorem find_mem {Key : Type} [DecidableEq Key] {key : Key} {entries : List (Key × Nat)}
    {value : Nat} (found : find key entries = some value) : (key, value) ∈ entries := by
  induction entries with
  | nil => cases found
  | cons entry rest ih =>
    obtain ⟨head, other⟩ := entry
    rw [find] at found
    split at found
    · rename_i same
      cases found
      rw [same]
      exact mem_cons_self
    · exact mem_cons_of_mem _ (ih found)

theorem findExts_counted (counted : CountedWith world carried) (node : Bytes) :
    ∃ nodeExts nodetable at',
      jabberCapsFindExtsByNode world node =
        some ({ world with nodeExts := nodeExts, nodetable := nodetable }, at') ∧
      CountedWith { world with nodeExts := nodeExts, nodetable := nodetable } (at' :: carried) := by
  rw [jabberCapsFindExtsByNode]
  cases listed : find node world.nodetable with
  | some at' =>
    have held : 0 < world.nodetable.countP (·.2 = at') :=
      countP_pos_iff.mpr ⟨_, find_mem listed, decide_eq_true rfl⟩
    have here := counted at'
    rw [holders] at here
    obtain ⟨exts, found, same⟩ := exts_of_refs (show 0 < refs world at' by omega)
    simp only [found, map_some]
    refine ⟨_, world.nodetable, at', rfl, ?_⟩
    intro other
    have before := counted other
    change refs (world.putExts at' (some { exts with ref := exts.ref + 1 })) other =
      holders world other + _
    rw [refs_putExts found]
    by_cases equal : other = at'
    · subst equal
      rw [if_pos rfl, count_cons_self]
      change exts.ref + 1 = _
      omega
    · rw [if_neg equal, count_cons_of_ne (Ne.symm equal)]
      exact before
  | none =>
    refine ⟨_, _, world.nodeExts.length, rfl, ?_⟩
    have vacant : refs world world.nodeExts.length = 0 := by
      change ((world.nodeExts[world.nodeExts.length]?).join).elim 0 _ = 0
      rw [getElem?_eq_none (Nat.le_refl _)]
      rfl
    intro other
    have before := counted other
    change (((world.nodeExts ++ [some ⟨2, fun _ => []⟩])[other]?).join).elim 0 (·.ref) =
      ((node, world.nodeExts.length) :: world.nodetable).countP (·.2 = other) +
        world.infos.countP (·.exts = some other) +
        world.userdata.countP (heldBy · = some other) + _
    rw [holders] at before
    by_cases equal : other = world.nodeExts.length
    · subst equal
      rw [vacant] at before
      rw [getElem?_concat_length, countP_cons, count_cons_self]
      simp only [decide_true, if_true]
      change 2 = _
      omega
    · rw [count_cons_of_ne (Ne.symm equal), countP_cons]
      simp only [Ne.symm equal, decide_false, Bool.false_eq_true, if_false, Nat.add_zero]
      have same : ((world.nodeExts ++ [some ⟨2, fun _ => []⟩])[other]?).join =
          world.exts other := by
        by_cases inside : other < world.nodeExts.length
        · rw [getElem?_append_left inside]
          rfl
        · rw [getElem?_eq_none (by rw [length_append, length_singleton]; omega),
            World.exts, getElem?_eq_none (by omega)]
      rw [same]
      exact before

theorem holders_putUser {old : Option UserData} (slot : world.userdata[lookup]? = some old)
    (new : Option UserData) (at' : Nat) :
    holders (world.putUser lookup new) at' + one (heldBy old = some at') =
      holders world at' + one (heldBy new = some at') := by
  have changed := countP_set_add (fun user => decide (heldBy user = some at')) world.userdata slot new
  simp only [one, decide_eq_true_eq] at changed
  change world.nodetable.countP (·.2 = at') + world.infos.countP (·.exts = some at') +
      (world.userdata.set lookup new).countP (heldBy · = some at') + one _ =
    world.nodetable.countP (·.2 = at') + world.infos.countP (·.exts = some at') +
      world.userdata.countP (heldBy · = some at') + one _
  simp only [one]
  omega

theorem count_toList (held : Option Nat) (at' : Nat) :
    held.toList.count at' = one (held = some at') := by
  cases held with
  | none => rfl
  | some value =>
    simp only [toList_some, count_singleton, one, Option.some.injEq, beq_iff_eq]

theorem putUser_counted {old : Option UserData} (slot : world.userdata[lookup]? = some old)
    (new : Option UserData) {given taken : List Nat}
    (trade : ∀ at', one (heldBy old = some at') + given.count at' =
      one (heldBy new = some at') + taken.count at')
    (counted : CountedWith world given) : CountedWith (world.putUser lookup new) taken := by
  intro at'
  have before := counted at'
  have changed := holders_putUser slot new at'
  have traded := trade at'
  change refs world at' = _
  omega

theorem putInfo_counted {info : Nat} {client : JabberCapsClientInfo}
    (slot : world.infos[info]? = some client) (bare : client.exts = none)
    (counted : CountedWith world (at' :: carried)) :
    CountedWith (world.putInfo info { client with exts := some at' }) carried := by
  intro other
  have before := counted other
  have changed := countP_set_add (fun client => decide (client.exts = some other)) world.infos slot
    { client with exts := some at' }
  simp only [one, decide_eq_true_eq, bare, reduceCtorEq, if_false, Option.some.injEq] at changed
  rw [holders, count_cons] at before
  simp only [beq_iff_eq] at before
  change refs world other = world.nodetable.countP (·.2 = other) +
    (world.infos.set info { client with exts := some at' }).countP (·.exts = some other) +
    world.userdata.countP (heldBy · = some other) + _
  omega

theorem addInfo_counted {held : Option Nat} (key : JabberCapsTuple)
    (counted : CountedWith world (held.toList ++ carried))
    (capstable : List (JabberCapsTuple × Nat)) :
    CountedWith { world with
      infos := world.infos ++ [⟨held, key⟩]
      capstable := capstable } carried := by
  intro other
  have before := counted other
  rw [count_append, count_toList, holders] at before
  change refs world other = world.nodetable.countP (·.2 = other) +
    (world.infos ++ [(⟨held, key⟩ : JabberCapsClientInfo)]).countP (·.exts = some other) +
    world.userdata.countP (heldBy · = some other) + _
  rw [countP_append, countP_singleton]
  simp only [one, decide_eq_true_eq] at before ⊢
  omega

def released (user : UserData) : Option UserData :=
  if 1 < user.ref then some { user with ref := user.ref - 1 } else none

theorem user_slot (found : world.user lookup = some user) :
    world.userdata[lookup]? = some (some user) := join_eq_some_iff.mp found

theorem userdataUnref_counted (found : world.user lookup = some user) (positive : 0 < user.ref)
    (counted : CountedWith world []) :
    ∃ nodeExts, cbplususerdataUnref world lookup =
        some (({ world with nodeExts := nodeExts }).putUser lookup (released user)) ∧
      CountedWith (({ world with nodeExts := nodeExts }).putUser lookup (released user)) [] := by
  rw [cbplususerdataUnref, found, bind_some, if_neg (by omega)]
  by_cases shared : 1 < user.ref
  · have left : released user = some { user with ref := user.ref - 1 } := if_pos shared
    rw [if_pos shared, left]
    exact ⟨world.nodeExts, rfl, putUser_counted (user_slot found) _ (fun _ => rfl) counted⟩
  · have left : released user = none := if_neg shared
    rw [if_neg shared, left]
    -- the last reference gives back the exts
    have parted : CountedWith (world.putUser lookup none) (user.nodeExts.toList ++ []) := by
      refine putUser_counted (user_slot found) none (fun at' => ?_) counted
      rw [append_nil, count_toList]
      rw [one_none, Nat.zero_add]
      rfl
    obtain ⟨nodeExts, unrefs, fine⟩ := unrefOptional_counted parted
    rw [unrefOptional_putUser] at unrefs
    exact ⟨nodeExts, unrefs, fine⟩

end Purple.Jabber.Caps
