/-
The stores that adding and setting build, and the trees below their roots.
-/

import Purple.PrefsReload
import Purple.PrefsRename

namespace Purple.Prefs

open List NamedTree

structure Built (prefs : Store) : Prop where
  tree : WellFormed prefs.tree
  fresh : ∀ entry ∈ prefs.tree, entry.address < prefs.fresh
  started : root < prefs.fresh
  plain : ∀ entry ∈ prefs.tree, '/' ∉ entry.name
  listed : ∀ key pref, prefs.prefsHash.lookup key = some pref → Live prefs.tree pref

theorem built_init : Built purplePrefsInit := by
  refine ⟨wellFormed_nil, ?_, by decide, ?_, ?_⟩
  · intro entry member
    cases member
  · intro entry member
    cases member
  · intro key pref found
    cases found

variable {prefs : Store}

theorem built_findPref (built : Built prefs) {name : Text} {pref : Nat}
    (found : findPref prefs name = some pref) : Live prefs.tree pref := by
  unfold findPref at found
  split at found
  · cases found
  · split at found
    · cases found
      exact .inl rfl
    · exact built.listed _ _ found

theorem built_same (built : Built prefs) {after : Store} (same : SameTree prefs after) :
    Built after := by
  obtain ⟨tree, prefsHash, fresh⟩ := same
  constructor
  · rw [tree]
    exact built.tree
  · rw [tree, fresh]
    exact built.fresh
  · rw [fresh]
    exact built.started
  · rw [tree]
    exact built.plain
  · rw [tree, prefsHash]
    exact built.listed

theorem built_live (built : Built prefs) {pref : Nat} (live : Live prefs.tree pref) :
    pref < prefs.fresh := by
  rcases live with rfl | ⟨entry, member, rfl⟩
  · exact built.started
  · exact built.fresh entry member

theorem built_add (built : Built prefs) (value : PrefValue) (name : Text) :
    ∃ added, addPref prefs value name = some added ∧ Built added ∧
      (added = prefs ∨ ∃ parent, findPrefParent prefs name = some parent ∧
        prefs.childNamed parent (getPathBasename name) = none ∧
        added = withNode prefs parent name value) := by
  unfold addPref
  cases found : findPrefParent prefs name with
  | none => exact ⟨prefs, rfl, built, .inl rfl⟩
  | some parent =>
    have live : Live prefs.tree parent := by
      unfold findPrefParent at found
      split at found
      · cases found
        exact .inl rfl
      · exact built_findPref built found
    have older := built_live built live
    simp only [isLive_iff, live, not_true_eq_false, if_false]
    cases unnamed : prefs.childNamed parent (getPathBasename name) with
    | some child => exact ⟨prefs, rfl, built, .inl rfl⟩
    | none =>
      refine ⟨withNode prefs parent name value, rfl, ?_, .inr ⟨parent, rfl, unnamed, rfl⟩⟩
      constructor
      · rw [withNode_tree]
        exact wellFormed_append built.tree built.fresh older live (childNamed_none unnamed)
      · rw [withNode_tree]
        intro entry member
        rcases mem_append.mp member with old | new
        · exact Nat.lt_succ_of_lt (built.fresh entry old)
        · rw [mem_singleton.mp new]
          exact Nat.lt_succ_self _
      · exact Nat.lt_succ_of_lt built.started
      · rw [withNode_tree]
        intro entry member
        rcases mem_append.mp member with old | new
        · exact built.plain entry old
        · rw [mem_singleton.mp new]
          exact basename_plain name
      · rw [withNode_tree]
        intro key pref listed
        by_cases same : key = name
        · rw [same, withNode, HashTable.lookup_insert_self] at listed
          cases listed
          exact .inr ⟨_, mem_append_right _ mem_cons_self, rfl⟩
        · rw [withNode, HashTable.lookup_insert_other _ same] at listed
          exact live_append (built.listed key pref listed)

theorem built_set (built : Built prefs) (name : Text) {store : PrefValue → Option PrefValue}
    (keepsType : KeepsType store) (value : PrefValue) :
    ∃ set, setPref prefs name store (addPref prefs value name) = some set ∧ Built set := by
  cases found : findPref prefs name with
  | none =>
    obtain ⟨added, adds, builtAdded, -⟩ := built_add built value name
    refine ⟨added, ?_, builtAdded⟩
    rw [setPref, found]
    exact adds
  | some pref =>
    obtain ⟨set, result, same, -⟩ := setPref_found built.tree found (built_findPref built found)
      keepsType (addPref prefs value name)
    exact ⟨set, result, built_same built same⟩

def Call.isBuilding : Call → Bool
  | .remove _ => false
  | .rename _ _ => false
  | .renameBooleanToggle _ _ => false
  | _ => true

theorem built_call (built : Built prefs) {made : Call} (building : made.isBuilding) :
    ∃ next, call anyText prefs made = some next ∧ Built next := by
  have adds : ∀ value name, ∃ added, addPref prefs value name = some added ∧ Built added := by
    intro value name
    obtain ⟨added, result, builtAdded, -⟩ := built_add built value name
    exact ⟨added, result, builtAdded⟩
  cases made with
  | addNone name => exact adds _ name
  | addBool name value => exact adds _ name
  | addInt name value => exact adds _ name
  | addString name value =>
    simp only [call, purplePrefsAddString]
    split
    · exact adds _ name
    · exact ⟨prefs, rfl, built⟩
  | addStringList name value => exact adds _ name
  | addPath name value => exact adds _ name
  | addPathList name value => exact adds _ name
  | setBool name value => exact built_set built name (keepsType_bool value) _
  | setInt name value => exact built_set built name (keepsType_int value) _
  | setString name value =>
    simp only [call, purplePrefsSetString, purplePrefsAddString]
    split
    · exact built_set built name (keepsType_string value) _
    · exact ⟨prefs, rfl, built⟩
  | setStringList name value => exact built_set built name (keepsType_stringList _) _
  | setPath name value => exact built_set built name (keepsType_path value) _
  | setPathList name value => exact built_set built name (keepsType_pathList value) _
  | remove name => cases building
  | rename oldName newName => cases building
  | renameBooleanToggle oldName newName => cases building

def builds (_ : Store) (made : Call) : Prop := made.isBuilding

structure Regular (forest : List PrefTree) : Prop where
  plain : forestPlain forest
  distinct : forestDistinct forest
  siblings : (forest.map PrefTree.name).Nodup

/-- `rounds` bounds the depth. -/
def forestOf (prefs : Store) : Nat → Nat → List PrefTree
  | 0, _ => []
  | rounds + 1, parent =>
    (prefs.children parent).map fun node =>
      .node node.name node.value (forestOf prefs rounds node.pref)

theorem mem_children {parent : Nat} {node : PurplePref} :
    node ∈ prefs.children parent ↔ node ∈ prefs.nodes ∧ node.parent = parent := by
  rw [Store.children, mem_filter, decide_eq_true_iff]

theorem younger_child (built : Built prefs) {parent : Nat} {node : PurplePref}
    (child : node ∈ prefs.children parent) :
    younger prefs.tree node.pref < younger prefs.tree parent := by
  obtain ⟨member, isChild⟩ := mem_children.mp child
  have older := built.tree.older _ (entry_mem member)
  rw [entry_parent, isChild] at older
  exact younger_lt (entry_mem member) older

theorem describes_map (nodes : List PurplePref) (below : PurplePref → List PrefTree)
    (described : ∀ node ∈ nodes, forestDescribes prefs (prefs.children node.pref) (below node)) :
    forestDescribes prefs nodes
      (nodes.map fun node => .node node.name node.value (below node)) := by
  induction nodes with
  | nil => trivial
  | cons node rest ih =>
    exact ⟨⟨rfl, rfl, described node mem_cons_self⟩,
      ih fun other member => described other (mem_cons_of_mem _ member)⟩

theorem forestOf_describes (built : Built prefs) (rounds : Nat) {parent : Nat}
    (enough : younger prefs.tree parent < rounds) :
    forestDescribes prefs (prefs.children parent) (forestOf prefs rounds parent) := by
  induction rounds generalizing parent with
  | zero => exact absurd enough (Nat.not_lt_zero _)
  | succ rounds ih =>
    refine describes_map _ _ fun node child => ih ?_
    exact Nat.lt_of_lt_of_le (younger_child built child) (Nat.le_of_lt_succ enough)

theorem siblings_nodup (built : Built prefs) (parent : Nat) :
    ((prefs.children parent).map PurplePref.name).Nodup := by
  rw [List.Nodup, pairwise_map]
  have sorted := pairwise_map.mp built.tree.sorted
  refine (sorted.filter _).imp_of_mem ?_
  intro first second left right younger sameName
  obtain ⟨firstMember, firstChild⟩ := mem_children.mp left
  obtain ⟨secondMember, secondChild⟩ := mem_children.mp right
  have same := built.tree.siblings _ (entry_mem firstMember) _ (entry_mem secondMember)
    (firstChild.trans secondChild.symm) sameName
  exact Nat.ne_of_lt younger (congrArg Entry.address same)

theorem plain_map (nodes : List PurplePref) (below : PurplePref → List PrefTree)
    (plain : ∀ node ∈ nodes, '/' ∉ node.name ∧ forestPlain (below node)) :
    forestPlain (nodes.map fun node => .node node.name node.value (below node)) := by
  induction nodes with
  | nil => trivial
  | cons node rest ih =>
    exact ⟨plain node mem_cons_self,
      ih fun other member => plain other (mem_cons_of_mem _ member)⟩

theorem distinct_map (nodes : List PurplePref) (below : PurplePref → List PrefTree)
    (distinct : ∀ node ∈ nodes,
      ((below node).map PrefTree.name).Nodup ∧ forestDistinct (below node)) :
    forestDistinct (nodes.map fun node => .node node.name node.value (below node)) := by
  induction nodes with
  | nil => trivial
  | cons node rest ih =>
    exact ⟨distinct node mem_cons_self,
      ih fun other member => distinct other (mem_cons_of_mem _ member)⟩

theorem forestOf_regular (built : Built prefs) (rounds parent : Nat) :
    Regular (forestOf prefs rounds parent) := by
  induction rounds generalizing parent with
  | zero => exact ⟨trivial, trivial, nodup_nil⟩
  | succ rounds ih =>
    refine ⟨?_, ?_, ?_⟩
    · refine plain_map _ _ fun node child => ⟨?_, (ih node.pref).plain⟩
      exact built.plain _ (entry_mem (mem_children.mp child).1)
    · exact distinct_map _ _ fun node _ => ⟨(ih node.pref).siblings, (ih node.pref).distinct⟩
    · rw [forestOf, List.map_map]
      exact siblings_nodup built parent

end Purple.Prefs
