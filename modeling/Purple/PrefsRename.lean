/-
Renaming preferences, and the hash table over whole runs.
-/

import Purple.PrefsIndex

namespace Purple.Prefs

open Option NamedTree

/-- The new pref is freed with a child of the old one while the loop still needs
it: the way from the old to the new pref goes on below the new one. -/
inductive FreesNew (tree : List (Entry Text PurplePrefType)) : Nat → Nat → Prop
  | here {new : Nat} {child newChild : Entry Text PurplePrefType} (member : child ∈ tree)
      (inside : Below tree child.address new) (newMember : newChild ∈ tree)
      (isChild : newChild.parent = new) (named : newChild.name = child.name)
      (kind : newChild.kind = child.kind) : FreesNew tree child.parent new
  | deeper {new : Nat} {child newChild : Entry Text PurplePrefType} (member : child ∈ tree)
      (inside : Below tree child.address new) (newMember : newChild ∈ tree)
      (isChild : newChild.parent = new) (named : newChild.name = child.name)
      (frees : FreesNew tree child.address newChild.address) : FreesNew tree child.parent new

def PrefValue.isFilled : PrefValue → Prop
  | .stringList list => list ≠ []
  | .pathList list => list ≠ []
  | _ => False

structure Safe (prefs : Store) (old new : Nat) : Prop where
  kept : ¬FreesNew prefs.tree old new
  lists : old = new → ∀ node ∈ prefs.nodes, Below prefs.tree old node.pref → ¬node.value.isFilled

variable {prefs : Store} {validate : Text → Bool}

theorem freesNew_mono {smaller larger : List (Entry Text PurplePrefType)}
    (within : ∀ entry ∈ smaller, entry ∈ larger) {old new : Nat}
    (frees : FreesNew smaller old new) : FreesNew larger old new := by
  induction frees with
  | here member inside newMember isChild named kind =>
    exact .here (within _ member) (below_mono within inside) (within _ newMember) isChild named kind
  | deeper member inside newMember isChild named frees ih =>
    exact .deeper (within _ member) (below_mono within inside) (within _ newMember) isChild named ih

theorem freesNew_below {tree : List (Entry Text PurplePrefType)} (wellFormed : WellFormed tree)
    {old new : Nat} (frees : FreesNew tree old new) : Below tree old new ∧ old ≠ new := by
  have strictly : ∀ child ∈ tree, Below tree child.address new →
      Below tree child.parent new ∧ child.parent ≠ new := by
    intro child member inside
    refine ⟨below_trans (.child member .self) inside, ?_⟩
    exact Nat.ne_of_lt (Nat.lt_of_lt_of_le (wellFormed.older child member)
      (below_older wellFormed inside))
  cases frees with
  | here member inside newMember isChild named kind => exact strictly _ member inside
  | deeper member inside newMember isChild named frees => exact strictly _ member inside

/-- What renaming `old` to `new` does to the tree: only nodes below `old` go. -/
structure Renamed (old new : Nat) (before after : Store) : Prop where
  agrees : Agrees after
  tree : after.tree.Sublist before.tree
  survives : ∀ entry ∈ before.tree, ¬Below before.tree old entry.address → entry ∈ after.tree
  lists : old = new → ∀ node ∈ after.nodes, node.value.isFilled → node ∈ before.nodes

theorem renamed_refl (agrees : Agrees prefs) (old new : Nat) : Renamed old new prefs prefs :=
  ⟨agrees, List.Sublist.refl _, fun _ member _ => member, fun _ _ member _ => member⟩

theorem renamed_within {old new : Nat} {after : Store} (renamed : Renamed old new prefs after) :
    ∀ entry ∈ after.tree, entry ∈ prefs.tree := fun _ inAfter => renamed.tree.subset inAfter

theorem renamed_trans {middle after : Store} {old new child newChild : Nat}
    (below : Below prefs.tree old child) (same : old = new → child = newChild)
    (first : Renamed child newChild prefs middle) (rest : Renamed old new middle after) :
    Renamed old new prefs after := by
  refine ⟨rest.agrees, rest.tree.trans first.tree, ?_, ?_⟩
  · intro entry inTree outside
    refine rest.survives entry (first.survives entry inTree ?_) ?_
    · exact fun inside => outside (below_trans below inside)
    · exact fun inside => outside (below_mono (renamed_within first) inside)
  · intro equal node inAfter filled
    exact first.lists (same equal) node (rest.lists equal node inAfter filled) filled

theorem safe_renamed {middle : Store} {old new child newChild : Nat}
    (safe : Safe prefs old new) (same : old = new → child = newChild)
    (first : Renamed child newChild prefs middle) : Safe middle old new := by
  refine ⟨fun frees => safe.kept (freesNew_mono (renamed_within first) frees), ?_⟩
  intro equal node member below filled
  exact safe.lists equal node (first.lists (same equal) node member filled)
    (below_mono (renamed_within first) below) filled

/-! ### One node -/

theorem moveValue_same (agrees : Agrees prefs) {old new : Nat} {newName : Text}
    (full : prefFullName prefs new = some newName) {value : PrefValue}
    (isValue : prefs.value old = some value) (lists : old = new → ¬value.isFilled) :
    ∃ moved, moveValue validate prefs old newName value = some moved ∧ SameTree prefs moved ∧
      ∀ node ∈ moved.nodes, node.value.isFilled → node ∈ prefs.nodes ∨ value.isFilled := by
  obtain ⟨target, found, isTarget⟩ : ∃ target, findPref prefs newName = some target ∧
      (target = root ∨ target = new) := by
    rw [findPref_fullName agrees full]
    split
    · exact ⟨root, rfl, .inl rfl⟩
    · exact ⟨new, rfl, .inr rfl⟩
  -- A list is not freed before it is copied.
  have apart : ∀ list : List (Option Text), (value.isFilled ↔ list ≠ []) → value ≠ .none →
      ¬(findPref prefs newName = some old ∧ list ≠ []) := by
    rintro list filled some_value ⟨foundOld, nonempty⟩
    rw [found] at foundOld
    cases foundOld
    rcases isTarget with atRoot | isNew
    · rw [atRoot] at isValue
      cases isValue
      exact some_value rfl
    · exact lists isNew (filled.mpr nonempty)
  have general : ∀ (store : PrefValue → Option PrefValue) (added : Option Store),
      KeepsType store → (∀ old stored, store old = some stored → stored.isFilled → value.isFilled) →
      ∃ moved, setPref prefs newName store added = some moved ∧ SameTree prefs moved ∧
        ∀ node ∈ moved.nodes, node.value.isFilled → node ∈ prefs.nodes ∨ value.isFilled := by
    intro store added keepsType fills
    obtain ⟨set, result, same, nodes⟩ :=
      setPref_found agrees.tree found (findPref_live agrees found) keepsType added
    refine ⟨set, result, same, fun node member filled => ?_⟩
    rcases nodes node member with kept | ⟨before, -, stored⟩
    · exact .inl kept
    · exact .inr (fills before node.value stored filled)
  cases value with
  | none => exact ⟨prefs, rfl, sameTree_refl prefs, fun node member _ => .inl member⟩
  | boolean boolean =>
    refine general _ _ (keepsType_bool boolean) fun before stored result => ?_
    cases before <;> cases result
    exact id
  | integer integer =>
    refine general _ _ (keepsType_int integer) fun before stored result => ?_
    cases before <;> cases result
    exact id
  | string string =>
    by_cases valid : isValid validate string
    · simp only [moveValue, purplePrefsSetString, if_pos valid]
      refine general _ _ (keepsType_string string) fun before stored result => ?_
      cases before <;> cases result <;> exact id
    · simp only [moveValue, purplePrefsSetString, if_neg valid]
      exact ⟨prefs, rfl, sameTree_refl prefs, fun node member _ => .inl member⟩
  | stringList list =>
    simp only [moveValue, setList]
    rw [if_neg (apart list Iff.rfl (by simp))]
    refine general _ _ (keepsType_stringList _) fun before stored result filled empty => ?_
    cases before <;> cases result
    rw [empty] at filled
    exact filled rfl
  | path path =>
    refine general _ _ (keepsType_path path) fun before stored result => ?_
    cases before <;> cases result
    exact id
  | pathList list =>
    simp only [moveValue, setList]
    rw [if_neg (apart list Iff.rfl (by simp))]
    refine general _ _ (keepsType_pathList list) fun before stored result => ?_
    cases before <;> cases result
    exact id

theorem finishRename_renamed (agrees : Agrees prefs) {old new : Nat} (safe : Safe prefs old new)
    (oldLive : Live prefs.tree old) (newLive : Live prefs.tree new) :
    ∃ finished, finishRename validate prefs old new = some finished ∧
      Renamed old new prefs finished ∧
      (∀ oldEntry ∈ prefs.tree, oldEntry.address = old → ∀ newEntry ∈ prefs.tree,
        newEntry.address = new → oldEntry.kind ≠ newEntry.kind → newEntry ∈ finished.tree) := by
  obtain ⟨oldName, oldFull⟩ := prefFullName_live agrees.tree oldLive
  obtain ⟨newName, newFull⟩ := prefFullName_live agrees.tree newLive
  obtain ⟨oldValue, isOldValue⟩ := value_live oldLive agrees.tree
  obtain ⟨newValue, isNewValue⟩ := value_live newLive agrees.tree
  simp only [finishRename, oldFull, newFull, isOldValue, isNewValue, bind_eq_bind,
    bind_some, Option.pure_def]
  by_cases differ : oldValue.type ≠ newValue.type
  · rw [if_pos differ]
    exact ⟨prefs, rfl, renamed_refl agrees old new, fun _ _ _ newEntry member _ _ => member⟩
  · rw [if_neg differ]
    have lists : old = new → ¬oldValue.isFilled := by
      intro equal filled
      by_cases atRoot : old = root
      · rw [Store.value, if_pos atRoot] at isOldValue
        cases isOldValue
        exact filled
      · rw [Store.value, if_neg atRoot, map_eq_some_iff] at isOldValue
        obtain ⟨node, found, rfl⟩ := isOldValue
        obtain ⟨member, here⟩ := node_some found
        refine safe.lists equal node member ?_ filled
        rw [here]
        exact .self
    obtain ⟨moved, moves, same, nodes⟩ := moveValue_same agrees newFull isOldValue lists
    have movedLive : Live moved.tree old := by
      rw [same.tree]
      exact oldLive
    obtain ⟨removed, removes, gone⟩ := remove_removed (agrees_same agrees same) movedLive
    refine ⟨removed, by rw [moves]; exact removes, ⟨gone.agrees, ?_, ?_, ?_⟩, ?_⟩
    · rw [← same.tree]
      exact gone.nodes.map _
    · intro entry member outside
      rw [← same.tree] at member outside
      obtain ⟨node, inNodes, rfl⟩ := List.mem_map.mp member
      exact entry_mem (gone.survives node inNodes outside)
    · intro equal node member filled
      exact (nodes node (gone.nodes.subset member) filled).resolve_right (lists equal)
    · rintro oldEntry oldMember rfl newEntry newMember rfl kinds
      obtain ⟨oldNode, oldIn, rfl⟩ := List.mem_map.mp oldMember
      obtain ⟨newNode, newIn, rfl⟩ := List.mem_map.mp newMember
      rw [entry_kind, entry_kind, ← value_kind agrees.tree oldIn isOldValue,
        ← value_kind agrees.tree newIn isNewValue] at kinds
      exact absurd kinds differ

/-! ### The recursion -/

def NodeRenames (validate : Text → Bool) (fuel : Nat) : Prop :=
  ∀ (prefs : Store) (old new : Nat), Agrees prefs → Safe prefs old new →
    Live prefs.tree old → Live prefs.tree new → 2 * younger prefs.tree old + 1 < fuel →
    ∃ renamed, purplePrefsRenameNode validate fuel old new prefs = some renamed ∧
      Renamed old new prefs renamed ∧
      (∀ oldEntry ∈ prefs.tree, oldEntry.address = old → ∀ newEntry ∈ prefs.tree,
        newEntry.address = new → oldEntry.kind ≠ newEntry.kind → newEntry ∈ renamed.tree)

def ChildrenRename (validate : Text → Bool) (fuel : Nat) : Prop :=
  ∀ (prefs : Store) (old new : Nat) (next : Option PurplePref), Agrees prefs →
    Safe prefs old new → Live prefs.tree old → Live prefs.tree new → 0 < fuel →
    (∀ child, next = some child → child.entry ∈ prefs.tree ∧ child.parent = old ∧
      2 * younger prefs.tree child.pref + 2 < fuel) →
    ∃ renamed, renameChildren validate fuel new next prefs = some renamed ∧
      Renamed old new prefs renamed ∧ Live renamed.tree old ∧ Live renamed.tree new

theorem sibling_some {child sibling : PurplePref} (found : prefs.sibling child = some sibling) :
    sibling ∈ prefs.nodes ∧ sibling.parent = child.parent ∧ child.pref < sibling.pref := by
  obtain ⟨inNodes, isChild⟩ := List.mem_filter.mp (List.mem_of_find?_eq_some found)
  exact ⟨inNodes, by simpa using isChild, by simpa using List.find?_some found⟩

section Loop

variable {old new : Nat} {child newChild : PurplePref}

theorem safe_child (agrees : Agrees prefs) (safe : Safe prefs old new)
    (member : child.entry ∈ prefs.tree) (isChild : child.parent = old)
    (newMember : newChild ∈ prefs.nodes) (newIsChild : newChild.parent = new)
    (named : newChild.name = child.name) :
    Safe prefs child.pref newChild.pref ∧ (old = new → child.pref = newChild.pref) := by
  subst isChild newIsChild
  have inTree := entry_mem newMember
  have same : child.pref = newChild.pref → child.parent = newChild.parent := by
    intro equal
    exact congrArg Entry.parent (entry_unique agrees.tree member inTree equal)
  refine ⟨⟨?_, ?_⟩, ?_⟩
  · intro frees
    obtain ⟨below, different⟩ := freesNew_below agrees.tree frees
    rcases below_entry agrees.tree inTree below with equal | inside
    · exact different equal
    · exact safe.kept (.deeper member inside inTree rfl named frees)
  · intro equal node inNodes below
    refine safe.lists (same equal) node inNodes ?_
    exact below_trans (.child member .self) below
  · intro equal
    exact congrArg Entry.address (agrees.tree.siblings _ member _ inTree equal named.symm)

theorem live_renamed (agrees : Agrees prefs) (safe : Safe prefs old new)
    (member : child.entry ∈ prefs.tree) (isChild : child.parent = old)
    (newMember : newChild ∈ prefs.nodes) (newIsChild : newChild.parent = new)
    (named : newChild.name = child.name) {middle : Store}
    (renamed : Renamed child.pref newChild.pref prefs middle)
    (kept : child.entry.kind ≠ newChild.entry.kind → newChild.entry ∈ middle.tree) :
    Live middle.tree new := by
  subst isChild newIsChild
  have inTree := entry_mem newMember
  by_cases inside : Below prefs.tree child.pref newChild.parent
  · have kinds : child.entry.kind ≠ newChild.entry.kind := by
      intro equal
      exact safe.kept (.here member inside inTree rfl named equal.symm)
    exact renamed.agrees.tree.parents _ (kept kinds)
  · rcases agrees.tree.parents _ inTree with atRoot | ⟨entry, inEntries, here⟩
    · exact .inl atRoot
    · refine .inr ⟨entry, renamed.survives entry inEntries ?_, here⟩
      rw [here]
      exact inside

end Loop

theorem node_renames {fuel : Nat} (childrenRename : ChildrenRename validate fuel) :
    NodeRenames validate (fuel + 1) := by
  intro prefs old new agrees safe oldLive newLive enough
  have firstChild : ∀ child, prefs.firstChild old = some child → child.entry ∈ prefs.tree ∧
      child.parent = old ∧ 2 * younger prefs.tree child.pref + 2 < fuel := by
    intro child first
    obtain ⟨member, isChild⟩ := firstChild_some first
    have older := agrees.tree.older _ (entry_mem member)
    rw [entry_parent, isChild] at older
    have fewer := younger_lt (entry_mem member) older
    rw [entry_address] at fewer
    exact ⟨entry_mem member, isChild, by omega⟩
  obtain ⟨looped, loops, renamed, stillOld, stillNew⟩ :=
    childrenRename prefs old new _ agrees safe oldLive newLive (by omega) firstChild
  obtain ⟨finished, finishes, ended, kept⟩ := @finishRename_renamed looped validate
    renamed.agrees old new (safe_renamed safe id renamed) stillOld stillNew
  refine ⟨finished, ?_, renamed_trans .self id renamed ended, ?_⟩
  · rw [purplePrefsRenameNode, if_neg (not_not.mpr (isLive_iff.mpr oldLive)), loops]
    exact finishes
  · -- Both nodes are still there behind the loop, as the entries they were.
    intro oldEntry oldMember oldHere newEntry newMember newHere kinds
    have inLoop : ∀ {entry : Entry Text PurplePrefType}, entry ∈ prefs.tree →
        Live looped.tree entry.address → entry ∈ looped.tree := by
      intro entry member live
      have positive := address_positive agrees.tree member
      obtain ⟨found, inTree, same⟩ := live.resolve_left (Nat.ne_of_gt positive)
      rw [← entry_unique agrees.tree (renamed_within renamed found inTree) member same]
      exact inTree
    subst oldHere newHere
    exact kept oldEntry (inLoop oldMember stillOld) rfl newEntry (inLoop newMember stillNew) rfl kinds

theorem children_rename {fuel : Nat} (nodeRenames : NodeRenames validate fuel)
    (childrenRename : ChildrenRename validate fuel) : ChildrenRename validate (fuel + 1) := by
  intro prefs old new next agrees safe oldLive newLive _ bounded
  cases next with
  | none => exact ⟨prefs, rfl, renamed_refl agrees old new, oldLive, newLive⟩
  | some child =>
    obtain ⟨member, isChild, enough⟩ := bounded child rfl
    have childLive : Live prefs.tree child.pref := .inr ⟨_, member, rfl⟩
    -- The next child is in a later state with fewer nodes, but not among those below this one.
    have later : ∀ state : Store, state.tree.Sublist prefs.tree →
        (∀ entry ∈ prefs.tree, ¬Below prefs.tree child.pref entry.address →
          entry ∈ state.tree) →
        ∀ sibling, prefs.sibling child = some sibling → sibling.entry ∈ state.tree ∧
          sibling.parent = old ∧ 2 * younger state.tree sibling.pref + 2 < fuel := by
      intro state fewer survives sibling found
      obtain ⟨inNodes, sameParent, after⟩ := sibling_some found
      have inTree := entry_mem inNodes
      have outside := not_below_sibling agrees.tree member inTree sameParent.symm
        (Nat.ne_of_lt after)
      have smaller := younger_sublist fewer sibling.pref
      have less := younger_lt inTree after
      rw [entry_address] at less
      exact ⟨survives _ inTree outside, sameParent.trans isChild, by omega⟩
    rw [renameChildren, if_neg (not_or.mpr ⟨not_not.mpr (isLive_iff.mpr childLive),
      not_not.mpr (isLive_iff.mpr newLive)⟩)]
    cases found : prefs.childNamed new child.name with
    | none =>
      exact childrenRename prefs old new _ agrees safe oldLive newLive (by omega)
        (later prefs (List.Sublist.refl _) fun _ inTree _ => inTree)
    | some newChild =>
      obtain ⟨newMember, newIsChild, named⟩ := childNamed_some found
      obtain ⟨childSafe, same⟩ :=
        safe_child agrees safe member isChild newMember newIsChild named
      obtain ⟨middle, renames, renamed, kept⟩ := nodeRenames prefs child.pref newChild.pref
        agrees childSafe childLive (.inr ⟨_, entry_mem newMember, rfl⟩) (by omega)
      have below : Below prefs.tree old child.pref := by
        refine .child member ?_
        rw [entry_parent, isChild]
        exact .self
      have stillOld : Live middle.tree old := by
        rcases oldLive with atRoot | ⟨entry, inTree, here⟩
        · exact .inl atRoot
        · refine .inr ⟨entry, renamed.survives entry inTree ?_, here⟩
          rw [here, ← isChild]
          exact not_below_parent agrees.tree member
      have stillNew : Live middle.tree new :=
        live_renamed agrees safe member isChild newMember newIsChild named renamed
          (kept _ member rfl _ (entry_mem newMember) rfl)
      obtain ⟨looped, loops, rest, lastOld, lastNew⟩ :=
        childrenRename middle old new _ renamed.agrees (safe_renamed safe same renamed)
          stillOld stillNew (by omega) (later middle renamed.tree renamed.survives)
      refine ⟨looped, ?_, renamed_trans below same renamed rest, lastOld, lastNew⟩
      simp only [renames, bind_some, loops]

theorem renames (fuel : Nat) : NodeRenames validate fuel ∧ ChildrenRename validate fuel := by
  induction fuel with
  | zero =>
    refine ⟨?_, ?_⟩
    · intro prefs old new _ _ _ _ enough
      exact absurd enough (Nat.not_lt_zero _)
    · intro prefs old new next _ _ _ _ enough
      exact absurd enough (Nat.lt_irrefl 0)
  | succ fuel ih => exact ⟨node_renames ih.2, children_rename ih.1 ih.2⟩

theorem rename_agrees (agrees : Agrees prefs) {old new : Nat} (safe : Safe prefs old new)
    (oldLive : Live prefs.tree old) (newLive : Live prefs.tree new) :
    ∃ renamed, rename validate prefs old new = some renamed ∧ Agrees renamed := by
  have bounded := @younger_le_length _ _ prefs.tree old
  rw [Store.tree, List.length_map] at bounded
  obtain ⟨renamed, result, done, -⟩ := (@renames validate _).1 prefs old new agrees safe
    oldLive newLive (by change _ < 2 * prefs.nodes.length + 2; unfold Store.tree; omega)
  exact ⟨renamed, result, done.agrees⟩

/-! ### Calls -/

inductive Call where
  | addNone (name : Text)
  | addBool (name : Text) (value : Int32)
  | addInt (name : Text) (value : Int32)
  | addString (name : Text) (value : Option Text)
  | addStringList (name : Text) (value : List (Option Text))
  | addPath (name : Text) (value : Option Text)
  | addPathList (name : Text) (value : List (Option Text))
  | setBool (name : Text) (value : Int32)
  | setInt (name : Text) (value : Int32)
  | setString (name : Text) (value : Option Text)
  | setStringList (name : Text) (value : List (Option Text))
  | setPath (name : Text) (value : Option Text)
  | setPathList (name : Text) (value : List (Option Text))
  | remove (name : Text)
  | rename (oldName newName : Text)
  | renameBooleanToggle (oldName newName : Text)

def call (validate : Text → Bool) (prefs : Store) : Call → Option Store
  | .addNone name => purplePrefsAddNone prefs name
  | .addBool name value => purplePrefsAddBool prefs name value
  | .addInt name value => purplePrefsAddInt prefs name value
  | .addString name value => purplePrefsAddString validate prefs name value
  | .addStringList name value => purplePrefsAddStringList validate prefs name value
  | .addPath name value => purplePrefsAddPath prefs name value
  | .addPathList name value => purplePrefsAddPathList prefs name value
  | .setBool name value => purplePrefsSetBool prefs name value
  | .setInt name value => purplePrefsSetInt prefs name value
  | .setString name value => purplePrefsSetString validate prefs name value
  | .setStringList name value => purplePrefsSetStringList validate prefs name value
  | .setPath name value => purplePrefsSetPath prefs name value
  | .setPathList name value => purplePrefsSetPathList prefs name value
  | .remove name => purplePrefsRemove prefs name
  | .rename oldName newName => purplePrefsRename validate prefs oldName newName
  | .renameBooleanToggle oldName newName =>
    purplePrefsRenameBooleanToggle prefs oldName newName

/-- A new pref keeps the path of its name, and renaming reads nothing freed. -/
def admits (validate : Text → Bool) (prefs : Store) : Call → Prop
  | .addNone name => keepsPath prefs name
  | .addBool name _ => keepsPath prefs name
  | .addInt name _ => keepsPath prefs name
  | .addString name value => isValid validate value → keepsPath prefs name
  | .addStringList name _ => keepsPath prefs name
  | .addPath name _ => keepsPath prefs name
  | .addPathList name _ => keepsPath prefs name
  | .setBool name _ => findPref prefs name = none → keepsPath prefs name
  | .setInt name _ => findPref prefs name = none → keepsPath prefs name
  | .setString name value =>
    isValid validate value → findPref prefs name = none → keepsPath prefs name
  | .setStringList name _ => findPref prefs name = none → keepsPath prefs name
  | .setPath name _ => findPref prefs name = none → keepsPath prefs name
  | .setPathList name _ => findPref prefs name = none → keepsPath prefs name
  | .remove _ => True
  | .rename oldName newName => ∀ old new, findPref prefs oldName = some old →
      findPref prefs newName = some new → Safe prefs old new
  | .renameBooleanToggle _ _ => True

theorem agrees_init : Agrees purplePrefsInit := by
  refine ⟨wellFormed_nil, ?_, by decide, ?_, ?_, ?_⟩
  · intro entry member
    cases member
  · intro entry member
    cases member
  · intro entry member
    cases member
  · intro key pref
    constructor
    · intro impossible
      cases impossible
    · rintro ⟨notRoot, names, path, -⟩
      rcases path_live path with atRoot | ⟨entry, member, -⟩
      · exact absurd atRoot notRoot
      · cases member

theorem setter_agrees (agrees : Agrees prefs) {name : Text} {store : PrefValue → Option PrefValue}
    (keepsType : KeepsType store) (value : PrefValue)
    (keeps : findPref prefs name = none → keepsPath prefs name) :
    ∃ set, setPref prefs name store (addPref prefs value name) = some set ∧ Agrees set := by
  cases found : findPref prefs name with
  | none => exact agrees_set agrees keepsType (agrees_add agrees (keeps found) value)
  | some pref =>
    obtain ⟨set, result, same, -⟩ :=
      setPref_found agrees.tree found (findPref_live agrees found) keepsType
        (addPref prefs value name)
    exact ⟨set, result, agrees_same agrees same⟩

theorem remove_agrees (agrees : Agrees prefs) (name : Text) :
    ∃ removed, purplePrefsRemove prefs name = some removed ∧ Agrees removed := by
  unfold purplePrefsRemove
  cases found : findPref prefs name with
  | none => exact ⟨prefs, rfl, agrees⟩
  | some pref =>
    obtain ⟨removed, result, gone⟩ := remove_removed agrees (findPref_live agrees found)
    exact ⟨removed, result, gone.agrees⟩

theorem purplePrefsRename_agrees (agrees : Agrees prefs) {oldName newName : Text}
    (safe : ∀ old new, findPref prefs oldName = some old → findPref prefs newName = some new →
      Safe prefs old new) :
    ∃ renamed, purplePrefsRename validate prefs oldName newName = some renamed ∧
      Agrees renamed := by
  unfold purplePrefsRename
  cases oldFound : findPref prefs oldName with
  | none => exact ⟨prefs, rfl, agrees⟩
  | some old =>
    cases newFound : findPref prefs newName with
    | none => exact ⟨prefs, rfl, agrees⟩
    | some new =>
      exact rename_agrees agrees (safe old new oldFound newFound)
        (findPref_live agrees oldFound) (findPref_live agrees newFound)

theorem toggle_agrees (agrees : Agrees prefs) (oldName newName : Text) :
    ∃ renamed, purplePrefsRenameBooleanToggle prefs oldName newName = some renamed ∧
      Agrees renamed := by
  unfold purplePrefsRenameBooleanToggle
  cases oldFound : findPref prefs oldName with
  | none => exact ⟨prefs, rfl, agrees⟩
  | some old =>
    have oldLive := findPref_live agrees oldFound
    obtain ⟨oldValue, isOldValue⟩ := value_live oldLive agrees.tree
    simp only [isOldValue]
    cases oldValue with
    | boolean boolean =>
      simp only
      split
      · exact ⟨prefs, rfl, agrees⟩
      · cases newFound : findPref prefs newName with
        | none => exact ⟨prefs, rfl, agrees⟩
        | some new =>
          obtain ⟨newValue, isNewValue⟩ :=
            value_live (findPref_live agrees newFound) agrees.tree
          simp only [isNewValue, bind_eq_bind, bind_some, Option.pure_def]
          split
          · exact ⟨prefs, rfl, agrees⟩
          · obtain ⟨set, sets, same, -⟩ := setPref_found agrees.tree newFound
              (findPref_live agrees newFound) (keepsType_bool (if boolean = 0 then 1 else 0))
              (purplePrefsAddBool prefs newName (if boolean = 0 then 1 else 0))
            have setLive : Live set.tree old := by
              rw [same.tree]
              exact oldLive
            obtain ⟨removed, removes, gone⟩ :=
              remove_removed (agrees_same agrees same) setLive
            refine ⟨removed, ?_, gone.agrees⟩
            rw [purplePrefsSetBool, sets]
            exact removes
    | none => exact ⟨prefs, rfl, agrees⟩
    | integer integer => exact ⟨prefs, rfl, agrees⟩
    | string string => exact ⟨prefs, rfl, agrees⟩
    | stringList list => exact ⟨prefs, rfl, agrees⟩
    | path path => exact ⟨prefs, rfl, agrees⟩
    | pathList list => exact ⟨prefs, rfl, agrees⟩

theorem call_agrees (agrees : Agrees prefs) {made : Call} (admitted : admits validate prefs made) :
    ∃ next, call validate prefs made = some next ∧ Agrees next := by
  cases made with
  | addNone name => exact agrees_add agrees admitted _
  | addBool name value => exact agrees_add agrees admitted _
  | addInt name value => exact agrees_add agrees admitted _
  | addString name value =>
    simp only [call, purplePrefsAddString]
    split
    · exact agrees_add agrees (admitted ‹_›) _
    · exact ⟨prefs, rfl, agrees⟩
  | addStringList name value => exact agrees_add agrees admitted _
  | addPath name value => exact agrees_add agrees admitted _
  | addPathList name value => exact agrees_add agrees admitted _
  | setBool name value => exact setter_agrees agrees (keepsType_bool value) _ admitted
  | setInt name value => exact setter_agrees agrees (keepsType_int value) _ admitted
  | setString name value =>
    simp only [call, purplePrefsSetString, purplePrefsAddString]
    split
    · exact setter_agrees agrees (keepsType_string value) _ (admitted ‹_›)
    · exact ⟨prefs, rfl, agrees⟩
  | setStringList name value => exact setter_agrees agrees (keepsType_stringList _) _ admitted
  | setPath name value => exact setter_agrees agrees (keepsType_path value) _ admitted
  | setPathList name value => exact setter_agrees agrees (keepsType_pathList value) _ admitted
  | remove name => exact remove_agrees agrees name
  | rename oldName newName => exact purplePrefsRename_agrees agrees admitted
  | renameBooleanToggle oldName newName => exact toggle_agrees agrees oldName newName

/-- While every new pref keeps the path of its name and no rename reads what it
has freed, the tree and the hash table agree. -/
theorem prefs_indexed (validate : Text → Bool) {calls done : List Call}
    (admitted : PartialRun.Admitted (call validate) (admits validate) purplePrefsInit calls)
    (initial : done <+: calls) :
    ∃ last, PartialRun.run (call validate) purplePrefsInit done = some last ∧ Indexed last := by
  obtain ⟨last, ran, agrees⟩ := PartialRun.reached Agrees
    (fun _ _ agrees allowed => call_agrees agrees allowed) agrees_init admitted initial
  exact ⟨last, ran, agrees_indexed agrees⟩

theorem prefs_indexed_one : ∃ last, PartialRun.run (call fun _ => true) purplePrefsInit
    [.addNone ['/', 'a']] = some last ∧ Indexed last := by
  refine prefs_indexed (fun _ => true) ?_ (List.prefix_refl [Call.addNone ['/', 'a']])
  exact ⟨fun _ => .inl rfl, fun _ _ => trivial⟩

/-- The pref added as `//a` has the full name `/a`. -/
theorem doubled_slash :
    ¬ ∀ (calls : List Call) (last : Store),
      PartialRun.run (call fun _ => true) purplePrefsInit calls = some last → Indexed last := by
  intro always
  have indexed := always [.addNone ['/', '/', 'a']] _ rfl
  have found := (indexed.index ['/', '/', 'a'] 1).mp rfl
  exact absurd found.2 (by decide)

end Purple.Prefs
