/-
Loading the XML of the preferences recreates them just when they are clean.
-/

import Mathlib.Data.List.Perm.Subperm
import Purple.PrefsBuilt

namespace Purple.Prefs

open List Option NamedTree

/-- Everything that loading may lose: white space and absent strings, and what a
top-level pref with the empty name holds. -/
def Loadable (forest : List PrefTree) : Prop :=
  forestClean forest ∧ ∀ tree ∈ forest, TopEmpty tree

def RoundTrips (forest : List PrefTree) : Prop :=
  ∃ loaded, reload forest = some loaded ∧ Holds loaded forest

variable {forest : List PrefTree} {name : Text} {value : PrefValue}
  {store : PrefValue → Option PrefValue} {added : Option Store} {tree : PrefTree}

theorem roundTrips_of_loadable (regular : Regular forest) (loadable : Loadable forest) :
    RoundTrips forest := by
  have room : Room purplePrefsInit root [] forest := by
    refine ⟨agrees_init, .root, ?_, ?_, fun _ => loadable.2⟩
    · intro tree _ node member
      cases member
    · intro entry member
      cases member
  obtain ⟨loaded, applies, -, nodes, -⟩ := @forest_applies forest purplePrefsInit root [] [] rfl room
    loadable.1 regular.plain regular.distinct regular.siblings
  refine ⟨loaded, ?_, holds_nodes nodes⟩
  rw [reload_eq regular.plain]
  exact applies

/-! ### What was loaded is clean -/

variable {prefs : Store}

def CleanStore (prefs : Store) : Prop :=
  ∀ node ∈ prefs.nodes, Xml.KeepsSpace node.name ∧ node.value.Clean

theorem cleanStore_init : CleanStore purplePrefsInit := by
  intro node member
  cases member

def CleanChange : Change → Prop
  | .item _ value => cleanText value
  | .pref name .string value => Xml.KeepsSpace name ∧ cleanText value
  | .pref name .path value => Xml.KeepsSpace name ∧ cleanText value
  | .pref name _ _ => Xml.KeepsSpace name

theorem basename_keeps (keeps : Xml.KeepsSpace name) : Xml.KeepsSpace (getPathBasename name) := by
  intro c member
  rw [getPathBasename, mem_reverse] at member
  exact keeps c (mem_reverse.mp ((takeWhile_sublist _).subset member))

theorem fullPath_keeps {names : List Text} (keep : ∀ name ∈ names, Xml.KeepsSpace name) :
    Xml.KeepsSpace (fullPath names) := by
  intro c member
  obtain ⟨name, inNames, inside⟩ := mem_flatMap.mp member
  rcases mem_cons.mp inside with rfl | later
  · decide
  · exact keep name inNames c later

theorem cleanStore_add (clean : CleanStore prefs) (built : Built prefs) (cleanValue : value.Clean)
    (keeps : Xml.KeepsSpace name) :
    ∃ added, addPref prefs value name = some added ∧ Built added ∧ CleanStore added := by
  obtain ⟨added, result, builtAdded, unchanged | ⟨parent, -, -, new⟩⟩ := built_add built value name
  · rw [unchanged] at result builtAdded
    exact ⟨prefs, result, builtAdded, clean⟩
  · refine ⟨added, result, builtAdded, ?_⟩
    rw [new]
    intro node member
    rcases mem_append.mp member with old | here
    · exact clean node old
    · rw [mem_singleton.mp here]
      exact ⟨basename_keeps keeps, cleanValue⟩

theorem value_clean (clean : CleanStore prefs) {pref : Nat}
    (found : prefs.value pref = some value) : value.Clean := by
  unfold Store.value at found
  split at found
  · cases found
    trivial
  · obtain ⟨node, isNode, rfl⟩ := map_eq_some_iff.mp found
    exact (clean node (node_some isNode).1).2

def KeepsClean (store : PrefValue → Option PrefValue) : Prop :=
  ∀ old value, old.Clean → store old = some value → value.Clean

theorem cleanStore_set (clean : CleanStore prefs) (built : Built prefs) (name : Text)
    (keepsType : KeepsType store) (keepsClean : KeepsClean store)
    (adds : ∃ next, added = some next ∧ Built next ∧ CleanStore next) :
    ∃ set, setPref prefs name store added = some set ∧ Built set ∧ CleanStore set := by
  cases found : findPref prefs name with
  | none =>
    obtain ⟨next, isNext, builtNext, cleanNext⟩ := adds
    refine ⟨next, ?_, builtNext, cleanNext⟩
    rw [setPref, found]
    exact isNext
  | some pref =>
    obtain ⟨set, result, same, nodes⟩ :=
      setPref_found built.tree found (built_findPref built found) keepsType added
    refine ⟨set, result, built_same built same, ?_⟩
    intro node member
    have inTree := entry_mem member
    rw [same.tree] at inTree
    obtain ⟨origin, inNodes, sameEntry⟩ := List.mem_map.mp inTree
    have sameName : origin.name = node.name := congrArg Entry.name sameEntry
    refine ⟨by rw [← sameName]; exact (clean origin inNodes).1, ?_⟩
    rcases nodes node member with kept | ⟨old, isOld, stored⟩
    · exact (clean node kept).2
    · exact keepsClean old node.value (value_clean clean isOld) stored

theorem keepsType_item (value : Option Text) : KeepsType (appendItem value) := by
  intro old stored result
  cases old <;> cases result <;> rfl

theorem keepsClean_item {value : Option Text} (clean : cleanText value) :
    KeepsClean (appendItem value) := by
  intro old stored cleanOld result
  cases old <;> cases result <;>
  · intro item member
    rcases mem_append.mp member with before | here
    · exact cleanOld item before
    · rw [mem_singleton.mp here]
      exact clean

theorem keepsClean_const (cleans : ∀ old value, store old = some value → value.Clean) :
    KeepsClean store :=
  fun old value _ result => cleans old value result

theorem cleanStore_change (clean : CleanStore prefs) (built : Built prefs) {change : Change}
    (cleanChange : CleanChange change) :
    ∃ next, applyChange prefs change = some next ∧ Built next ∧ CleanStore next := by
  cases change with
  | item list value =>
    exact cleanStore_set clean built list (keepsType_item value) (keepsClean_item cleanChange)
      ⟨prefs, rfl, built, clean⟩
  | pref name type value =>
    have adds : ∀ {value : PrefValue}, value.Clean → Xml.KeepsSpace name →
        ∃ added, addPref prefs value name = some added ∧ Built added ∧ CleanStore added :=
      fun cleanValue keeps => cleanStore_add clean built cleanValue keeps
    cases type with
    | none => exact adds trivial cleanChange
    | boolean =>
      refine cleanStore_set clean built name (keepsType_bool _) (keepsClean_const ?_)
        (adds trivial cleanChange)
      intro old stored result
      cases old <;> cases result
      trivial
    | int =>
      refine cleanStore_set clean built name (keepsType_int _) (keepsClean_const ?_)
        (adds trivial cleanChange)
      intro old stored result
      cases old <;> cases result
      trivial
    | string =>
      obtain ⟨keeps, text⟩ := cleanChange
      have valid : isValid anyText value := by
        cases value <;> rfl
      simp only [applyChange, purplePrefsSetString, purplePrefsAddString, if_pos valid]
      refine cleanStore_set clean built name (keepsType_string _) (keepsClean_const ?_)
        (adds text keeps)
      intro old stored result
      cases old <;> cases result <;> exact text
    | stringList =>
      refine cleanStore_set clean built name (keepsType_stringList _) (keepsClean_const ?_)
        (adds ?_ cleanChange)
      · intro old stored result
        cases old <;> cases result
        intro item member
        cases member
      · intro item member
        cases member
    | path =>
      obtain ⟨keeps, text⟩ := cleanChange
      refine cleanStore_set clean built name (keepsType_path _) (keepsClean_const ?_)
        (adds text keeps)
      intro old stored result
      cases old <;> cases result
      exact text
    | pathList =>
      refine cleanStore_set clean built name (keepsType_pathList _) (keepsClean_const ?_)
        (adds ?_ cleanChange)
      · intro old stored result
        cases old <;> cases result
        intro item member
        cases member
      · intro item member
        cases member

theorem cleanStore_changes (clean : CleanStore prefs) (built : Built prefs) {changes : List Change}
    (cleanChanges : ∀ change ∈ changes, CleanChange change) :
    ∃ last, applyChanges prefs changes = some last ∧ Built last ∧ CleanStore last := by
  induction changes generalizing prefs with
  | nil => exact ⟨prefs, rfl, built, clean⟩
  | cons change rest ih =>
    obtain ⟨next, result, builtNext, cleanNext⟩ :=
      cleanStore_change clean built (cleanChanges change mem_cons_self)
    obtain ⟨last, results, builtLast, cleanLast⟩ :=
      ih cleanNext builtNext fun other member => cleanChanges other (mem_cons_of_mem _ member)
    refine ⟨last, ?_, builtLast, cleanLast⟩
    rw [applyChanges, result]
    exact results

/-! ### The changes of a document are clean -/

theorem pref_cleanChange {prefsStack : List Text} (stack : ∀ name ∈ prefsStack, Xml.KeepsSpace name)
    (name : Text) (value : PrefValue) :
    CleanChange (.pref (prefPath prefsStack (reported name)) value.type (loadedText value)) := by
  have keeps : Xml.KeepsSpace (prefPath prefsStack (reported name)) := by
    rw [prefPath_eq]
    refine fullPath_keeps fun other member => ?_
    rcases mem_append.mp member with upper | last
    · exact stack other (mem_reverse.mp upper)
    · rw [mem_singleton.mp last]
      exact reported_keeps name
  cases value with
  | none => exact keeps
  | boolean boolean => exact keeps
  | integer integer => exact keeps
  | string text => exact ⟨keeps, _, rfl, reported_keeps _⟩
  | stringList list => exact keeps
  | path text => exact ⟨keeps, _, rfl, reported_keeps _⟩
  | pathList list => exact keeps

mutual

theorem tree_cleanChanges (tree : PrefTree) {prefsStack : List Text}
    (stack : ∀ name ∈ prefsStack, Xml.KeepsSpace name) :
    ∀ change ∈ treeChanges prefsStack tree, CleanChange change := by
  obtain ⟨name, value, children⟩ := tree
  have inner : ∀ other ∈ reported name :: prefsStack, Xml.KeepsSpace other := by
    intro other member
    rcases mem_cons.mp member with rfl | upper
    · exact reported_keeps name
    · exact stack other upper
  intro change member
  rw [treeChanges] at member
  rcases mem_cons.mp member with rfl | later
  · exact pref_cleanChange stack name value
  · rcases mem_append.mp later with ofList | below
    · obtain ⟨item, -, rfl⟩ := List.mem_map.mp ofList
      exact ⟨_, rfl, reported_keeps _⟩
    · exact forest_cleanChanges children inner change below

theorem forest_cleanChanges (forest : List PrefTree) {prefsStack : List Text}
    (stack : ∀ name ∈ prefsStack, Xml.KeepsSpace name) :
    ∀ change ∈ forestChanges prefsStack forest, CleanChange change := by
  match forest with
  | [] =>
    intro change member
    cases member
  | tree :: rest =>
    intro change member
    rw [forestChanges] at member
    rcases mem_append.mp member with first | later
    · exact tree_cleanChanges tree stack change first
    · exact forest_cleanChanges rest stack change later

end

mutual

theorem tree_clean (clean : CleanStore prefs) (tree : PrefTree) {node : PurplePref}
    (member : node ∈ prefs.nodes) (described : tree.describes prefs node) : tree.Clean := by
  obtain ⟨name, value, children⟩ := tree
  obtain ⟨sameName, sameValue, below⟩ := described
  obtain ⟨keeps, cleanValue⟩ := clean node member
  rw [sameName] at keeps
  rw [sameValue] at cleanValue
  refine ⟨keeps, cleanValue, forest_clean clean children ?_ below⟩
  exact fun child isChild => (mem_children.mp isChild).1

theorem forest_clean (clean : CleanStore prefs) (forest : List PrefTree) {nodes : List PurplePref}
    (members : ∀ node ∈ nodes, node ∈ prefs.nodes)
    (described : forestDescribes prefs nodes forest) : forestClean forest := by
  match forest, nodes with
  | [], [] => trivial
  | [], _ :: _ => trivial
  | _ :: _, [] => cases described
  | tree :: rest, node :: others =>
    exact ⟨tree_clean clean tree (members node mem_cons_self) described.1,
      forest_clean clean rest (fun other member => members other (mem_cons_of_mem _ member))
        described.2⟩

end

theorem clean_of_roundTrips (plain : forestPlain forest) {loaded : Store}
    (reloads : reload forest = some loaded) (holds : Holds loaded forest) :
    Built loaded ∧ forestClean forest := by
  obtain ⟨last, results, built, clean⟩ := cleanStore_changes cleanStore_init built_init
    (@forest_cleanChanges forest [] (by intro name member; cases member))
  rw [reload_eq plain, results] at reloads
  cases reloads
  exact ⟨built, forest_clean clean forest (fun node member => (mem_children.mp member).1) holds⟩

/-! ### Counting the nodes -/

/-- `item` changes set a list, the others add at most one node. -/
def Change.isPref : Change → Bool
  | .item _ _ => false
  | .pref _ _ _ => true

theorem setPref_length {bound : Nat} (within : prefs.nodes.length ≤ bound)
    (adds : ∀ next, added = some next → next.nodes.length ≤ bound) {set : Store}
    (sets : setPref prefs name store added = some set) : set.nodes.length ≤ bound := by
  unfold setPref at sets
  split at sets
  · exact adds set sets
  · obtain ⟨old, -, stored⟩ := map_eq_some_iff.mp sets
    subst stored
    cases store old with
    | none => exact within
    | some value =>
      change (prefs.nodes.map _).length ≤ bound
      rw [length_map]
      exact within

theorem addPref_length {added : Store} (adds : addPref prefs value name = some added) :
    added.nodes.length ≤ prefs.nodes.length + 1 := by
  unfold addPref at adds
  split at adds
  · cases adds
    exact Nat.le_succ _
  · split at adds
    · cases adds
    · split at adds
      · cases adds
        exact Nat.le_succ _
      · cases adds
        rw [length_append]
        exact Nat.le_refl _

theorem change_length {change : Change} {next : Store}
    (applies : applyChange prefs change = some next) :
    next.nodes.length ≤ prefs.nodes.length + (if change.isPref then 1 else 0) := by
  have sets : ∀ {name : Text} {store : PrefValue → Option PrefValue} {value : PrefValue} {set : Store},
      setPref prefs name store (addPref prefs value name) = some set →
      set.nodes.length ≤ prefs.nodes.length + 1 := fun result =>
    setPref_length (Nat.le_succ _) (fun _ => addPref_length) result
  cases change with
  | item list value =>
    refine setPref_length (Nat.le_refl _) ?_ applies
    intro next unchanged
    cases unchanged
    exact Nat.le_refl _
  | pref name type value =>
    cases type with
    | none => exact addPref_length applies
    | boolean => exact sets applies
    | int => exact sets applies
    | string =>
      have valid : isValid anyText value := by
        cases value <;> rfl
      simp only [applyChange, purplePrefsSetString, purplePrefsAddString, if_pos valid] at applies
      exact sets applies
    | stringList => exact sets applies
    | path => exact sets applies
    | pathList => exact sets applies

theorem changes_length {changes : List Change} {last : Store}
    (apply : applyChanges prefs changes = some last) :
    last.nodes.length ≤ prefs.nodes.length + changes.countP Change.isPref := by
  induction changes generalizing prefs with
  | nil =>
    cases apply
    exact Nat.le_refl _
  | cons change rest ih =>
    obtain ⟨next, first, later⟩ := bind_eq_some_iff.mp apply
    have upToNext := change_length first
    have fromNext := ih later
    rw [countP_cons]
    omega

theorem items_countP (prefsStack : List Text) (items : List (Option Text)) :
    (items.map (itemChange prefsStack)).countP Change.isPref = 0 := by
  rw [countP_eq_zero]
  intro change member
  obtain ⟨item, -, rfl⟩ := List.mem_map.mp member
  exact Bool.false_ne_true

mutual

theorem tree_countP (tree : PrefTree) (prefsStack : List Text) :
    (treeChanges prefsStack tree).countP Change.isPref = tree.size := by
  obtain ⟨name, value, children⟩ := tree
  rw [treeChanges, countP_cons, countP_append, items_countP,
    forest_countP children, PrefTree.size, Nat.zero_add]
  rfl

theorem forest_countP (forest : List PrefTree) (prefsStack : List Text) :
    (forestChanges prefsStack forest).countP Change.isPref = forestSize forest := by
  match forest with
  | [] => rfl
  | tree :: rest =>
    rw [forestChanges, countP_append, tree_countP tree, forest_countP rest, forestSize]

end

mutual

def treePaths (names : List Text) : PrefTree → List (List Text)
  | .node name _ children => (names ++ [name]) :: forestPaths (names ++ [name]) children

def forestPaths (names : List Text) : List PrefTree → List (List Text)
  | [] => []
  | tree :: rest => treePaths names tree ++ forestPaths names rest

end

mutual

theorem treePaths_length (tree : PrefTree) (names : List Text) :
    (treePaths names tree).length = tree.size := by
  obtain ⟨name, value, children⟩ := tree
  rw [treePaths, length_cons, forestPaths_length children, PrefTree.size]

theorem forestPaths_length (forest : List PrefTree) (names : List Text) :
    (forestPaths names forest).length = forestSize forest := by
  match forest with
  | [] => rfl
  | tree :: rest =>
    rw [forestPaths, length_append, treePaths_length tree, forestPaths_length rest, forestSize]

end

mutual

theorem treePaths_above (tree : PrefTree) (names : List Text) :
    ∀ path ∈ treePaths names tree, names ++ [tree.name] <+: path := by
  obtain ⟨name, value, children⟩ := tree
  intro path member
  rw [treePaths] at member
  rcases mem_cons.mp member with rfl | below
  · exact prefix_refl _
  · obtain ⟨child, -, lower⟩ := forestPaths_above children (names ++ [name]) path below
    exact (prefix_append _ _).trans lower

theorem forestPaths_above (forest : List PrefTree) (names : List Text) :
    ∀ path ∈ forestPaths names forest, ∃ tree ∈ forest, names ++ [tree.name] <+: path := by
  match forest with
  | [] =>
    intro path member
    cases member
  | tree :: rest =>
    intro path member
    rw [forestPaths] at member
    rcases mem_append.mp member with first | later
    · exact ⟨tree, mem_cons_self, treePaths_above tree names path first⟩
    · obtain ⟨other, inRest, lower⟩ := forestPaths_above rest names path later
      exact ⟨other, mem_cons_of_mem _ inRest, lower⟩

end

theorem prefix_name {names path : List Text} {first second : Text}
    (left : names ++ [first] <+: path) (right : names ++ [second] <+: path) : first = second := by
  have same := prefix_or_prefix_of_prefix left right
  have sameLength : (names ++ [first]).length = (names ++ [second]).length := by simp
  have equal : names ++ [first] = names ++ [second] := by
    rcases same with shorter | shorter
    · exact shorter.eq_of_length sameLength
    · exact (shorter.eq_of_length sameLength.symm).symm
  exact singleton_inj.mp (append_cancel_left equal)

mutual

theorem treePaths_nodup (tree : PrefTree) (distinct : tree.Distinct) (names : List Text) :
    (treePaths names tree).Nodup := by
  obtain ⟨name, value, children⟩ := tree
  rw [treePaths, nodup_cons]
  refine ⟨?_, forestPaths_nodup children distinct.2 distinct.1 (names ++ [name])⟩
  intro member
  obtain ⟨child, -, lower⟩ := forestPaths_above children (names ++ [name]) _ member
  have longer := lower.length_le
  simp at longer

theorem forestPaths_nodup (forest : List PrefTree) (distinct : forestDistinct forest)
    (siblings : (forest.map PrefTree.name).Nodup) (names : List Text) :
    (forestPaths names forest).Nodup := by
  match forest with
  | [] => exact nodup_nil
  | tree :: rest =>
    obtain ⟨others, later⟩ := nodup_cons.mp siblings
    rw [forestPaths, nodup_append]
    refine ⟨treePaths_nodup tree distinct.1 names,
      forestPaths_nodup rest distinct.2 later names, ?_⟩
    rintro path ofTree other ofRest rfl
    obtain ⟨sibling, inRest, lower⟩ := forestPaths_above rest names path ofRest
    have sameName := prefix_name (treePaths_above tree names path ofTree) lower
    exact others (List.mem_map.mpr ⟨sibling, inRest, sameName.symm⟩)

end

mutual

theorem describes_paths (tree : PrefTree) {names : List Text} {node : PurplePref}
    (path : Path prefs.tree node.parent names) (member : node ∈ prefs.nodes)
    (described : tree.describes prefs node) :
    ∀ other ∈ treePaths names tree, ∃ found ∈ prefs.nodes, Path prefs.tree found.pref other := by
  obtain ⟨name, value, children⟩ := tree
  obtain ⟨sameName, -, below⟩ := described
  have here : Path prefs.tree node.pref (names ++ [name]) := by
    rw [← sameName]
    exact .child (entry_mem member) path
  intro other inPaths
  rw [treePaths] at inPaths
  rcases mem_cons.mp inPaths with rfl | lower
  · exact ⟨node, member, here⟩
  · exact forest_paths children here (fun child isChild => mem_children.mp isChild) below other lower

theorem forest_paths (forest : List PrefTree) {names : List Text} {parent : Nat}
    (path : Path prefs.tree parent names) {nodes : List PurplePref}
    (children : ∀ node ∈ nodes, node ∈ prefs.nodes ∧ node.parent = parent)
    (described : forestDescribes prefs nodes forest) :
    ∀ other ∈ forestPaths names forest, ∃ found ∈ prefs.nodes, Path prefs.tree found.pref other := by
  match forest, nodes with
  | [], _ =>
    intro other member
    cases member
  | _ :: _, [] => cases described
  | tree :: rest, node :: others =>
    obtain ⟨member, isChild⟩ := children node mem_cons_self
    intro other inPaths
    rw [forestPaths] at inPaths
    rcases mem_append.mp inPaths with first | later
    · refine describes_paths tree ?_ member described.1 other first
      rw [isChild]
      exact path
    · exact forest_paths rest path (fun next inOthers => children next (mem_cons_of_mem _ inOthers))
        described.2 other later

end

theorem holds_size (built : Built prefs) (regular : Regular forest) (holds : Holds prefs forest) :
    forestSize forest ≤ prefs.nodes.length := by
  have nodup := forestPaths_nodup forest regular.distinct regular.siblings []
  have within : forestPaths [] forest ⊆
      prefs.nodes.map fun node => (namesTo prefs (node.pref + 1) node.pref).getD [] := by
    intro path member
    obtain ⟨found, inNodes, isPath⟩ := forest_paths forest .root
      (fun node isChild => mem_children.mp isChild) holds path member
    refine List.mem_map.mpr ⟨found, inNodes, ?_⟩
    rw [namesTo_complete built.tree isPath (Nat.lt_succ_self _)]
    rfl
  have counted := (nodup.subperm within).length_le
  rw [forestPaths_length, length_map] at counted
  exact counted

/-! ### The top-level pref with the empty name -/

/-- Nothing is found below the top-level pref with the empty name. -/
structure Barren (prefs : Store) (empty : Nat) : Prop where
  built : Built prefs
  top : ∃ node ∈ prefs.nodes, node.pref = empty ∧ node.parent = root ∧ node.name = []
  childless : ∀ entry ∈ prefs.tree, entry.parent ≠ empty
  listed : ∀ key, prefs.prefsHash.lookup key = some empty → key = ['/']

variable {empty : Nat}

theorem barren_same (barren : Barren prefs empty) {after : Store} (same : SameTree prefs after) :
    Barren after empty := by
  refine ⟨built_same barren.built same, ?_, ?_, ?_⟩
  · obtain ⟨node, member, here, atTop, unnamed⟩ := barren.top
    have inTree := entry_mem member
    rw [← same.tree] at inTree
    obtain ⟨other, inNodes, sameEntry⟩ := List.mem_map.mp inTree
    exact ⟨other, inNodes, (congrArg Entry.address sameEntry).trans here,
      (congrArg Entry.parent sameEntry).trans atTop, (congrArg Entry.name sameEntry).trans unnamed⟩
  · rw [same.tree]
    exact barren.childless
  · rw [same.prefsHash]
    exact barren.listed

theorem barren_new (built : Built prefs) (unnamed : prefs.childNamed root [] = none) :
    Barren (withNode prefs root ['/'] .none) prefs.fresh := by
  have adds : addPref prefs .none ['/'] = some (withNode prefs root ['/'] .none) := by
    rw [addPref, show findPrefParent prefs ['/'] = some root from rfl]
    simp only [isLive_iff, show Live prefs.tree root from .inl rfl, not_true_eq_false, if_false]
    rw [show getPathBasename ['/'] = [] from rfl, unnamed]
    rfl
  obtain ⟨added, result, builtAdded, -⟩ := built_add built .none ['/']
  rw [adds] at result
  cases result
  refine ⟨builtAdded, ⟨_, mem_append_right _ mem_cons_self, rfl, rfl, rfl⟩, ?_, ?_⟩
  · intro entry member
    rw [withNode_tree] at member
    rcases mem_append.mp member with old | new
    · exact Nat.ne_of_lt (built_live built (built.tree.parents entry old))
    · rw [mem_singleton.mp new]
      exact Nat.ne_of_lt built.started
  · intro key found
    by_cases slash : key = ['/']
    · exact slash
    · rw [withNode, HashTable.lookup_insert_other _ slash] at found
      exact absurd rfl (Nat.ne_of_lt (built_live built (built.listed key prefs.fresh found)))

theorem barren_findPref (barren : Barren prefs empty) (found : findPref prefs name = some empty) :
    empty = root := by
  unfold findPref at found
  split at found
  · cases found
  · split at found
    · exact (Option.some.inj found).symm
    · exact absurd (barren.listed name found) ‹_›

theorem barren_add (barren : Barren prefs empty) (value : PrefValue) (name : Text) :
    ∃ added, addPref prefs value name = some added ∧ Barren added empty := by
  obtain ⟨top, inNodes, here, atTop, unnamed⟩ := barren.top
  have notRoot : empty ≠ root := by
    rw [← here]
    exact Nat.ne_of_gt (address_positive barren.built.tree (entry_mem inNodes))
  have older : empty < prefs.fresh := by
    rw [← here]
    exact barren.built.fresh _ (entry_mem inNodes)
  obtain ⟨added, result, builtAdded, unchanged | ⟨parent, isParent, -, new⟩⟩ :=
    built_add barren.built value name
  · rw [unchanged] at result
    exact ⟨prefs, result, barren⟩
  · refine ⟨added, result, builtAdded, ?_, ?_, ?_⟩
    · rw [new]
      exact ⟨top, mem_append_left _ inNodes, here, atTop, unnamed⟩
    · have notParent : parent ≠ empty := by
        rintro rfl
        unfold findPrefParent at isParent
        split at isParent
        · exact notRoot (Option.some.inj isParent).symm
        · exact notRoot (barren_findPref barren isParent)
      rw [new, withNode_tree]
      intro entry member
      rcases mem_append.mp member with old | last
      · exact barren.childless entry old
      · rw [mem_singleton.mp last]
        exact notParent
    · intro key found
      by_cases same : key = name
      · rw [new, same, withNode, HashTable.lookup_insert_self] at found
        exact absurd (Option.some.inj found) (Nat.ne_of_gt older)
      · rw [new, withNode, HashTable.lookup_insert_other _ same] at found
        exact barren.listed key found

theorem barren_set (barren : Barren prefs empty) (name : Text) (keepsType : KeepsType store)
    (adds : ∃ next, added = some next ∧ Barren next empty) :
    ∃ set, setPref prefs name store added = some set ∧ Barren set empty := by
  cases found : findPref prefs name with
  | none =>
    obtain ⟨next, isNext, barrenNext⟩ := adds
    refine ⟨next, ?_, barrenNext⟩
    rw [setPref, found]
    exact isNext
  | some pref =>
    obtain ⟨set, result, same, -⟩ := setPref_found barren.built.tree found
      (built_findPref barren.built found) keepsType added
    exact ⟨set, result, barren_same barren same⟩

theorem barren_change (barren : Barren prefs empty) (change : Change) :
    ∃ next, applyChange prefs change = some next ∧ Barren next empty := by
  cases change with
  | item list value => exact barren_set barren list (keepsType_item value) ⟨prefs, rfl, barren⟩
  | pref name type value =>
    have adds := fun value => barren_add barren value name
    cases type with
    | none => exact adds .none
    | boolean => exact barren_set barren name (keepsType_bool _) (adds _)
    | int => exact barren_set barren name (keepsType_int _) (adds _)
    | string =>
      have valid : isValid anyText value := by
        cases value <;> rfl
      simp only [applyChange, purplePrefsSetString, purplePrefsAddString, if_pos valid]
      exact barren_set barren name (keepsType_string _) (adds _)
    | stringList => exact barren_set barren name (keepsType_stringList _) (adds _)
    | path => exact barren_set barren name (keepsType_path _) (adds _)
    | pathList => exact barren_set barren name (keepsType_pathList _) (adds _)

theorem barren_changes (barren : Barren prefs empty) {changes : List Change} {last : Store}
    (apply : applyChanges prefs changes = some last) : Barren last empty := by
  induction changes generalizing prefs with
  | nil =>
    cases apply
    exact barren
  | cons change rest ih =>
    obtain ⟨next, first, later⟩ := bind_eq_some_iff.mp apply
    obtain ⟨same, result, barrenNext⟩ := barren_change barren change
    rw [result] at first
    cases first
    exact ih barrenNext later

theorem slash_change (built : Built prefs) (type : PurplePrefType) (value : Option Text)
    {next : Store} (applies : applyChange prefs (.pref ['/'] type value) = some next) :
    next = prefs ∨ type = .none ∧ Barren next prefs.fresh := by
  have refused : ∀ (store : PrefValue → Option PrefValue) (value : PrefValue),
      store .none = none → setPref prefs ['/'] store (addPref prefs value ['/']) = some next →
      next = prefs := by
    intro store value refuses sets
    rw [setPref, show findPref prefs ['/'] = some root from rfl] at sets
    simp only [Store.value, if_pos, map_some, refuses] at sets
    exact (Option.some.inj sets).symm
  cases type with
  | none =>
    obtain ⟨added, result, -, unchanged | ⟨parent, isParent, unnamed, new⟩⟩ :=
      built_add built .none ['/']
    · rw [applyChange, purplePrefsAddNone, result] at applies
      cases applies
      exact .inl unchanged
    · rw [applyChange, purplePrefsAddNone, result] at applies
      cases applies
      cases isParent
      rw [new]
      exact .inr ⟨rfl, barren_new built unnamed⟩
  | boolean =>
    exact .inl (refused (storeBool (atoi (value.getD []))) (.boolean (atoi (value.getD []))) rfl
      applies)
  | int =>
    exact .inl (refused (storeInt (atoi (value.getD []))) (.integer (atoi (value.getD []))) rfl
      applies)
  | string =>
    have valid : isValid anyText value := by
      cases value <;> rfl
    simp only [applyChange, purplePrefsSetString, purplePrefsAddString, if_pos valid] at applies
    exact .inl (refused (storeString value) (.string value) rfl applies)
  | stringList => exact .inl (refused (storeStringList []) (.stringList []) rfl applies)
  | path => exact .inl (refused (storePath value) (.path value) rfl applies)
  | pathList => exact .inl (refused (storePathList []) (.pathList []) rfl applies)

theorem describes_member {nodes : List PurplePref}
    (described : forestDescribes prefs nodes forest) (member : tree ∈ forest) :
    ∃ node ∈ nodes, tree.describes prefs node := by
  induction forest generalizing nodes with
  | nil => cases member
  | cons first rest ih =>
    cases nodes with
    | nil => cases described
    | cons node others =>
      rcases mem_cons.mp member with rfl | later
      · exact ⟨node, mem_cons_self, described.1⟩
      · obtain ⟨found, inOthers, isFound⟩ := ih described.2 later
        exact ⟨found, mem_cons_of_mem _ inOthers, isFound⟩

theorem barren_describes (barren : Barren prefs empty) (holds : Holds prefs forest)
    (member : tree ∈ forest) (unnamed : tree.name = []) : tree.children = [] := by
  obtain ⟨node, isChild, described⟩ := describes_member holds member
  obtain ⟨inNodes, atRoot⟩ := mem_children.mp isChild
  obtain ⟨top, topMember, here, atTop, topUnnamed⟩ := barren.top
  obtain ⟨name, value, children⟩ := tree
  obtain ⟨sameName, -, below⟩ := described
  have same : node.entry = top.entry :=
    barren.built.tree.siblings _ (entry_mem inNodes) _ (entry_mem topMember)
      (atRoot.trans atTop.symm) ((sameName.trans unnamed).trans topUnnamed.symm)
  have isEmpty : node.pref = empty := (congrArg Entry.address same).trans here
  have noChildren : prefs.children empty = [] := by
    rw [Store.children, filter_eq_nil_iff]
    intro child inside
    rw [decide_eq_true_iff]
    exact barren.childless child.entry (entry_mem inside)
  rw [isEmpty, noChildren] at below
  cases children with
  | nil => rfl
  | cons child rest => cases below

theorem forestChanges_split (member : tree ∈ forest) (prefsStack : List Text) : ∃ before behind,
      forestChanges prefsStack forest = before ++ treeChanges prefsStack tree ++ behind := by
  induction forest with
  | nil => cases member
  | cons first rest ih =>
    rw [forestChanges]
    rcases mem_cons.mp member with rfl | later
    · exact ⟨[], _, rfl⟩
    · obtain ⟨before, behind, split⟩ := ih later
      rw [split]
      exact ⟨treeChanges prefsStack first ++ before, behind, by simp⟩

theorem none_of_type (isNone : value.type = .none) : value = .none := by
  cases value <;> first | rfl | cases isNone

theorem topEmpty_of_holds (regular : Regular forest) {loaded : Store}
    (applies : applyChanges purplePrefsInit (forestChanges [] forest) = some loaded)
    (built : Built loaded) (holds : Holds loaded forest) (member : tree ∈ forest) :
    TopEmpty tree := by
  intro unnamed
  obtain ⟨before, behind, split⟩ := forestChanges_split member []
  have counted := forest_countP forest []
  obtain ⟨name, value, children⟩ := tree
  change name = [] at unnamed
  subst unnamed
  rw [treeChanges, append_assoc, cons_append] at split
  rw [split] at applies counted
  rw [applyChanges_append] at applies
  obtain ⟨middle, first, later⟩ := bind_eq_some_iff.mp applies
  obtain ⟨next, slash, rest⟩ := bind_eq_some_iff.mp later
  have builtMiddle : Built middle := by
    obtain ⟨same, result, builtSame, -⟩ := @cleanStore_changes _ cleanStore_init built_init
      before fun change inBefore =>
        @forest_cleanChanges forest [] (fun _ none => nomatch none) change (by
          rw [split]
          exact mem_append_left _ inBefore)
    rw [result] at first
    cases first
    exact builtSame
  rcases slash_change builtMiddle _ _ slash with unchanged | ⟨isNone, barren⟩
  · -- One change adds nothing, so there are fewer nodes than trees.
    have enough := holds_size built regular holds
    have upTo := changes_length first
    have after := changes_length rest
    rw [unchanged] at after
    rw [countP_append, countP_cons_of_pos rfl] at counted
    change middle.nodes.length ≤ 0 + _ at upTo
    omega
  · have last := barren_changes barren rest
    exact ⟨none_of_type isNone, barren_describes last holds member rfl⟩

theorem roundTrips_iff (regular : Regular forest) : RoundTrips forest ↔ Loadable forest := by
  constructor
  · rintro ⟨loaded, reloads, holds⟩
    obtain ⟨built, clean⟩ := clean_of_roundTrips regular.plain reloads holds
    rw [reload_eq regular.plain] at reloads
    exact ⟨clean, fun tree member => topEmpty_of_holds regular reloads built holds member⟩
  · exact roundTrips_of_loadable regular

/-- Adding and setting build a tree, and loading its XML recreates it just when
its names and texts have no white space but blanks, no string is absent, and no
top-level pref with the empty name has a type or children. -/
theorem built_roundTrips_iff {calls : List Call}
    (building : PartialRun.Admitted (call anyText) builds purplePrefsInit calls) :
    ∃ prefs forest, PartialRun.run (call anyText) purplePrefsInit calls = some prefs ∧
      Holds prefs forest ∧ (RoundTrips forest ↔ Loadable forest) := by
  obtain ⟨prefs, ran, built⟩ := PartialRun.reached Built
    (fun _ _ built allowed => built_call built allowed) built_init building (prefix_refl calls)
  refine ⟨prefs, forestOf prefs (younger prefs.tree root + 1) root, ran, ?_, ?_⟩
  · exact forestOf_describes built _ (Nat.lt_succ_self _)
  · exact roundTrips_iff (forestOf_regular built _ _)

/-- A list of one text below a pref without a type. -/
theorem built_roundTrips_list :
    ∃ prefs forest, PartialRun.run (call anyText) purplePrefsInit
        [.addNone ['/', 'a'], .addStringList ['/', 'a', '/', 'b'] [some ['c']]] = some prefs ∧
      Holds prefs forest ∧ (RoundTrips forest ↔ Loadable forest) :=
  built_roundTrips_iff ⟨rfl, fun _ _ => ⟨rfl, fun _ _ => trivial⟩⟩

/-- A line feed in a string is read as a blank. -/
theorem lineFeed_lost :
    ¬ ∀ (calls : List Call) (prefs : Store) (forest : List PrefTree),
      PartialRun.run (call anyText) purplePrefsInit calls = some prefs → Holds prefs forest →
      RoundTrips forest := by
  intro always
  have plain : forestPlain [.node ['a'] (.string (some ['\n'])) []] :=
    ⟨⟨by decide, trivial⟩, trivial⟩
  obtain ⟨loaded, reloads, holds⟩ := always [.addString ['/', 'a'] (some ['\n'])] _
    [.node ['a'] (.string (some ['\n'])) []] rfl ⟨⟨rfl, rfl, trivial⟩, trivial⟩
  obtain ⟨-, ⟨-, ⟨text, isText, keeps⟩, -⟩, -⟩ := clean_of_roundTrips plain reloads holds
  cases isText
  exact (keeps '\n' mem_cons_self).2.1 rfl

end Purple.Prefs
