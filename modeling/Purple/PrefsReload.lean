/-
Loading the XML of clean trees: the nodes are created in the order of the tree.
-/

import Purple.PrefsIndex
import Purple.PrefsXml

namespace Purple.Prefs

open List Option NamedTree

mutual

def PrefTree.size : PrefTree → Nat
  | .node _ _ children => forestSize children + 1

def forestSize : List PrefTree → Nat
  | [] => 0
  | tree :: rest => tree.size + forestSize rest

end

def PrefTree.name : PrefTree → Text
  | .node name _ _ => name

def PrefTree.value : PrefTree → PrefValue
  | .node _ value _ => value

def PrefTree.children : PrefTree → List PrefTree
  | .node _ _ children => children

mutual

def treeNodes (address parent : Nat) : PrefTree → List PurplePref
  | .node name value children =>
    { pref := address, parent, name, value } :: forestNodes (address + 1) address children

def forestNodes (address parent : Nat) : List PrefTree → List PurplePref
  | [] => []
  | tree :: rest =>
    treeNodes address parent tree ++ forestNodes (address + tree.size) parent rest

end

mutual

def PrefTree.Distinct : PrefTree → Prop
  | .node _ _ children => (children.map PrefTree.name).Nodup ∧ forestDistinct children

def forestDistinct : List PrefTree → Prop
  | [] => True
  | tree :: rest => tree.Distinct ∧ forestDistinct rest

end

/-- A string that is there and in which reading changes no white space. -/
def cleanText (string : Option Text) : Prop := ∃ text, string = some text ∧ Xml.KeepsSpace text

def PrefValue.Clean : PrefValue → Prop
  | .none => True
  | .boolean _ => True
  | .integer _ => True
  | .string text => cleanText text
  | .stringList list => ∀ item ∈ list, cleanText item
  | .path text => cleanText text
  | .pathList list => ∀ item ∈ list, cleanText item

mutual

def PrefTree.Clean : PrefTree → Prop
  | .node name value children => Xml.KeepsSpace name ∧ value.Clean ∧ forestClean children

def forestClean : List PrefTree → Prop
  | [] => True
  | tree :: rest => tree.Clean ∧ forestClean rest

end

def TopEmpty (tree : PrefTree) : Prop := tree.name = [] → tree.value = .none ∧ tree.children = []

/-! ### Nodes in order -/

mutual

theorem treeNodes_length (address parent : Nat) (tree : PrefTree) :
    (treeNodes address parent tree).length = tree.size := by
  obtain ⟨name, value, children⟩ := tree
  rw [treeNodes, length_cons, forestNodes_length, PrefTree.size]

theorem forestNodes_length (address parent : Nat) (forest : List PrefTree) :
    (forestNodes address parent forest).length = forestSize forest := by
  match forest with
  | [] => rfl
  | tree :: rest =>
    rw [forestNodes, length_append, treeNodes_length, forestNodes_length, forestSize]

end

mutual

/-- The nodes have the addresses from `address` on, and their parents are among
them or `parent`. -/
theorem treeNodes_range (address parent : Nat) (tree : PrefTree) :
    ∀ node ∈ treeNodes address parent tree,
      (address ≤ node.pref ∧ node.pref < address + tree.size) ∧
        (node = { pref := address, parent, name := tree.name, value := tree.value } ∨
          address ≤ node.parent ∧ node.parent < address + tree.size) := by
  obtain ⟨name, value, children⟩ := tree
  intro node member
  rw [treeNodes] at member
  rw [PrefTree.size]
  rcases mem_cons.mp member with rfl | inside
  · exact ⟨⟨Nat.le_refl _, by change address < _; omega⟩, .inl rfl⟩
  · obtain ⟨⟨low, high⟩, parents⟩ := forestNodes_range (address + 1) address children node inside
    refine ⟨by omega, .inr ?_⟩
    rcases parents with here | between
    · rw [here]
      omega
    · omega

theorem forestNodes_range (address parent : Nat) (forest : List PrefTree) :
    ∀ node ∈ forestNodes address parent forest,
      (address ≤ node.pref ∧ node.pref < address + forestSize forest) ∧
        (node.parent = parent ∨
          address ≤ node.parent ∧ node.parent < address + forestSize forest) := by
  match forest with
  | [] =>
    intro node member
    cases member
  | tree :: rest =>
    intro node member
    rw [forestSize]
    rw [forestNodes] at member
    rcases mem_append.mp member with first | later
    · obtain ⟨⟨low, high⟩, parents⟩ := treeNodes_range address parent tree node first
      refine ⟨by omega, ?_⟩
      rcases parents with here | between
      · rw [here]
        exact .inl rfl
      · exact .inr (by omega)
    · obtain ⟨⟨low, high⟩, parents⟩ :=
        forestNodes_range (address + tree.size) parent rest node later
      refine ⟨by omega, ?_⟩
      rcases parents with here | between
      · exact .inl here
      · exact .inr (by omega)

end

def heads (address parent : Nat) : List PrefTree → List PurplePref
  | [] => []
  | tree :: rest =>
    { pref := address, parent, name := tree.name, value := tree.value } ::
      heads (address + tree.size) parent rest

theorem filter_tree_nodes {address parent : Nat} (older : parent < address) (tree : PrefTree) :
    (treeNodes address parent tree).filter (fun node => node.parent = parent) =
      [{ pref := address, parent, name := tree.name, value := tree.value }] := by
  obtain ⟨name, value, children⟩ := tree
  rw [treeNodes, filter_cons_of_pos (by simp)]
  congr 1
  rw [filter_eq_nil_iff]
  intro node member
  obtain ⟨-, parents⟩ := forestNodes_range (address + 1) address children node member
  simp only [decide_eq_true_eq]
  rcases parents with here | between
  · rw [here]
    exact Nat.ne_of_gt older
  · omega

theorem filter_forest_nodes {address parent : Nat} (older : parent < address)
    (forest : List PrefTree) :
    (forestNodes address parent forest).filter (fun node => node.parent = parent) =
      heads address parent forest := by
  induction forest generalizing address with
  | nil => rfl
  | cons tree rest ih =>
    rw [forestNodes, filter_append, filter_tree_nodes older,
      ih (Nat.lt_of_lt_of_le older (Nat.le_add_right _ _)), heads, singleton_append]

def Outside (first last : Nat) (nodes : List PurplePref) : Prop :=
  ∀ node ∈ nodes, node.parent < first ∨ last ≤ node.parent

mutual

theorem tree_described (tree : PrefTree) {prefs : Store} {address parent : Nat}
    (older : parent < address) {front back : List PurplePref}
    (nodes : prefs.nodes = front ++ treeNodes address parent tree ++ back)
    (before : Outside address (address + tree.size) front)
    (behind : Outside address (address + tree.size) back) :
    tree.describes prefs { pref := address, parent, name := tree.name, value := tree.value } := by
  obtain ⟨name, value, children⟩ := tree
  rw [PrefTree.size] at before behind
  refine ⟨rfl, rfl, ?_⟩
  have outside : ∀ {list : List PurplePref}, Outside address (address + (forestSize children + 1)) list →
      list.filter (fun node => node.parent = address) = [] := by
    intro list apart
    rw [filter_eq_nil_iff]
    intro node member
    have away := apart node member
    simp only [decide_eq_true_eq]
    omega
  have ownChildren : prefs.children address = heads (address + 1) address children := by
    have notParent : parent ≠ address := Nat.ne_of_lt older
    rw [Store.children, nodes, filter_append, filter_append, outside before,
      outside behind, treeNodes, filter_cons_of_neg (by simpa using notParent),
      filter_forest_nodes (Nat.lt_succ_self _), nil_append, append_nil]
  change forestDescribes prefs (prefs.children address) children
  rw [ownChildren]
  refine @forest_described children prefs (address + 1) address (Nat.lt_succ_self _)
    (front ++ [{ pref := address, parent, name, value }]) back ?_ ?_ ?_
  · rw [nodes, treeNodes]
    simp
  · intro node member
    rcases mem_append.mp member with early | here
    · have away := before node early
      omega
    · rw [mem_singleton.mp here]
      exact .inl (Nat.lt_succ_of_lt older)
  · intro node member
    have away := behind node member
    omega

theorem forest_described (forest : List PrefTree) {prefs : Store} {address parent : Nat}
    (older : parent < address) {front back : List PurplePref}
    (nodes : prefs.nodes = front ++ forestNodes address parent forest ++ back)
    (before : Outside address (address + forestSize forest) front)
    (behind : Outside address (address + forestSize forest) back) :
    forestDescribes prefs (heads address parent forest) forest := by
  match forest with
  | [] => trivial
  | tree :: rest =>
    rw [forestSize] at before behind
    have split : prefs.nodes = front ++ treeNodes address parent tree ++
        (forestNodes (address + tree.size) parent rest ++ back) := by
      rw [nodes, forestNodes]
      simp
    refine ⟨tree_described tree older split ?_ ?_, ?_⟩
    · intro node member
      have away := before node member
      omega
    · intro node member
      rcases mem_append.mp member with later | last
      · obtain ⟨-, parents⟩ := forestNodes_range (address + tree.size) parent rest node later
        rcases parents with here | between
        · rw [here]
          exact .inl older
        · exact .inr between.1
      · have away := behind node last
        omega
    · refine @forest_described rest prefs (address + tree.size) parent
        (Nat.lt_of_lt_of_le older (Nat.le_add_right _ _))
        (front ++ treeNodes address parent tree) back ?_ ?_ ?_
      · rw [nodes, forestNodes]
        simp
      · intro node member
        rcases mem_append.mp member with early | first
        · have away := before node early
          omega
        · obtain ⟨-, parents⟩ := treeNodes_range address parent tree node first
          rcases parents with here | between
          · rw [here]
            exact .inl (Nat.lt_of_lt_of_le older (Nat.le_add_right _ _))
          · exact .inl between.2
      · intro node member
        have away := behind node member
        omega

end

theorem holds_nodes {prefs : Store} {forest : List PrefTree}
    (nodes : prefs.nodes = forestNodes 1 root forest) : Holds prefs forest := by
  have children : prefs.children root = heads 1 root forest := by
    rw [Store.children, nodes]
    exact filter_forest_nodes Nat.zero_lt_one forest
  rw [Holds, children]
  refine @forest_described forest prefs 1 root Nat.zero_lt_one [] [] (by rw [nodes]; simp) ?_ ?_
  · intro node member
    cases member
  · intro node member
    cases member

/-! ### One pref -/

theorem basename_path (front : Text) {name : Text} (plain : '/' ∉ name) :
    getPathBasename (front ++ '/' :: name) = name := by
  have letters : ∀ c ∈ name.reverse, decide (c ≠ '/') = true := by
    intro c member
    refine decide_eq_true fun slash => plain ?_
    rw [← slash]
    exact mem_reverse.mp member
  rw [getPathBasename, reverse_append, reverse_cons, append_assoc,
    takeWhile_append_of_pos letters]
  simp

theorem dirname_path (front : Text) {name : Text} (plain : '/' ∉ name) :
    getPathDirname (front ++ '/' :: name) = if front = [] then ['/'] else front := by
  have letters : ∀ c ∈ name.reverse, decide (c ≠ '/') = true := by
    intro c member
    refine decide_eq_true fun slash => plain ?_
    rw [← slash]
    exact mem_reverse.mp member
  rw [getPathDirname, if_pos (by simp), reverse_append, reverse_cons, append_assoc,
    dropWhile_append_of_pos letters]
  simp

theorem path_not_slash {names : List Text} {name : Text} (notRoot : ¬(names = [] ∧ name = [])) :
    fullPath (names ++ [name]) ≠ ['/'] := by
  intro slash
  rw [fullPath_append] at slash
  cases names with
  | nil => exact notRoot ⟨rfl, (List.cons.inj slash).2⟩
  | cons first rest =>
    have lengths := congrArg List.length slash
    rw [fullPath_cons] at lengths
    simp at lengths

section Create

variable {prefs : Store} {parent : Nat} {names : List Text} {name : Text}

/-- A place for a new pref: its parent is there, has no child of the name, and is
not a top-level pref with the empty name. -/
structure Place (prefs : Store) (parent : Nat) (names : List Text) (name : Text) : Prop where
  agrees : Agrees prefs
  path : Path prefs.tree parent names
  unnamed : prefs.childNamed parent name = none
  plain : '/' ∉ name
  named : ∀ entry ∈ prefs.tree, entry.address = parent → ¬(entry.parent = root ∧ entry.name = [])

theorem place_basename (place : Place prefs parent names name) :
    getPathBasename (fullPath (names ++ [name])) = name := by
  rw [fullPath_append]
  exact basename_path _ place.plain

theorem plain_path (agrees : Agrees prefs) {pref : Nat} {others : List Text}
    (found : Path prefs.tree pref others) : ∀ other ∈ others, '/' ∉ other := by
  intro other member
  obtain ⟨entry, inTree, rfl⟩ := path_member found other member
  exact agrees.plain entry inTree

theorem place_parent (place : Place prefs parent names name) :
    findPrefParent prefs (fullPath (names ++ [name])) = some parent := by
  rw [fullPath_append, findPrefParent, dirname_path _ place.plain]
  by_cases top : fullPath names = []
  · have atRoot : names = [] := by
      cases names with
      | nil => rfl
      | cons first rest => cases top
    have path := place.path
    rw [atRoot] at path
    rw [if_pos top, if_pos rfl, path_injective place.agrees.tree path .root]
    rfl
  · have notRoot : parent ≠ root := by
      intro atRoot
      have path := place.path
      rw [atRoot] at path
      rw [path_root place.agrees.tree path] at top
      exact top rfl
    have full : prefFullName prefs parent = some (fullPath names) :=
      (prefFullName_iff place.agrees.tree notRoot).mpr ⟨names, place.path, rfl⟩
    -- A path that is a slash is that of a top-level pref with the empty name.
    have notSlash : fullPath names ≠ ['/'] := by
      intro slash
      obtain ⟨entry, member, here⟩ := (path_live place.path).resolve_left notRoot
      have path := place.path
      have same : names = [[]] := by
        refine fullPath_injective (plain_path place.agrees path) ?_ slash
        intro empty inside
        rw [mem_singleton.mp inside]
        exact not_mem_nil
      rw [← here, same] at path
      obtain ⟨above, upper, last⟩ := path_entry place.agrees.tree member path
      obtain ⟨emptyAbove, lastName⟩ := @append_inj' _ [] _ _ _ last rfl
      rw [← emptyAbove] at upper
      exact place.named entry member here
        ⟨path_injective place.agrees.tree upper .root, (singleton_inj.mp lastName).symm⟩
    rw [if_neg top, if_neg notSlash, findPref_fullName place.agrees full, if_neg notSlash]

theorem place_absent (place : Place prefs parent names name)
    (notRoot : ¬(names = [] ∧ name = [])) :
    findPref prefs (fullPath (names ++ [name])) = none := by
  unfold findPref
  rw [if_neg (path_not_slash notRoot)]
  split
  · rfl
  · cases found : prefs.prefsHash.lookup (fullPath (names ++ [name])) with
    | none => rfl
    | some pref =>
      obtain ⟨isNotRoot, others, path, same⟩ := (place.agrees.index _ _).mp found
      have plainNew : ∀ other ∈ names ++ [name], '/' ∉ other := by
        intro other member
        rcases mem_append.mp member with upper | last
        · exact plain_path place.agrees place.path other upper
        · rw [mem_singleton.mp last]
          exact place.plain
      have samePath := fullPath_injective plainNew (plain_path place.agrees path) same
      rw [← samePath] at path
      obtain ⟨entry, member, rfl⟩ := (path_live path).resolve_left isNotRoot
      obtain ⟨above, upper, last⟩ := path_entry place.agrees.tree member path
      obtain ⟨sameAbove, lastName⟩ := append_inj' last rfl
      rw [← sameAbove] at upper
      have isChild := path_injective place.agrees.tree upper place.path
      exact absurd (singleton_inj.mp lastName).symm
        (childNamed_none place.unnamed entry member isChild)

theorem place_add (place : Place prefs parent names name) (value : PrefValue) :
    addPref prefs value (fullPath (names ++ [name])) =
        some (withNode prefs parent (fullPath (names ++ [name])) value) ∧
      Agrees (withNode prefs parent (fullPath (names ++ [name])) value) := by
  have basename := place_basename place
  constructor
  · unfold addPref
    rw [place_parent place]
    simp only [isLive_iff, path_live place.path, not_true_eq_false, if_false, basename,
      place.unnamed]
    simp [withNode, basename]
  · refine agrees_withNode place.agrees place.path ?_ ?_ place.named value
    · rw [basename]
      exact place.unnamed
    · rw [basename]
      exact fullPath_append names name

def PrefValue.emptied : PrefValue → PrefValue
  | .stringList _ => .stringList []
  | .pathList _ => .pathList []
  | value => value

theorem clean_text {text : Option Text} (clean : cleanText text) :
    some (reported (text.getD [])) = text := by
  obtain ⟨inner, rfl, keeps⟩ := clean
  exact congrArg some (reported_eq.mpr keeps)

theorem place_apply (place : Place prefs parent names name) {value : PrefValue}
    (clean : value.Clean) (typed : names = [] → name = [] → value = .none) :
    applyChange prefs (.pref (fullPath (names ++ [name])) value.type (loadedText value)) =
      some (withNode prefs parent (fullPath (names ++ [name])) value.emptied) := by
  have adds := fun value => (place_add place value).1
  have absent : value ≠ .none → findPref prefs (fullPath (names ++ [name])) = none :=
    fun some_value => place_absent place fun both => some_value (typed both.1 both.2)
  cases value with
  | none => exact adds _
  | boolean boolean =>
    simp only [PrefValue.type, loadedText, applyChange, purplePrefsSetBool, setPref,
      absent (by simp), getD_some, atoi_printInt]
    exact adds _
  | integer integer =>
    simp only [PrefValue.type, loadedText, applyChange, purplePrefsSetInt, setPref,
      absent (by simp), getD_some, atoi_printInt]
    exact adds _
  | string text =>
    simp only [PrefValue.type, loadedText, applyChange, purplePrefsSetString, setPref,
      absent (by simp), clean_text clean]
    obtain ⟨inner, rfl, -⟩ := clean
    exact adds _
  | stringList list =>
    simp only [PrefValue.type, loadedText, applyChange, purplePrefsSetStringList, setPref,
      absent (by simp)]
    exact adds _
  | path text =>
    simp only [PrefValue.type, loadedText, applyChange, purplePrefsSetPath, setPref,
      absent (by simp), clean_text clean]
    exact adds _
  | pathList list =>
    simp only [PrefValue.type, loadedText, applyChange, purplePrefsSetPathList, setPref,
      absent (by simp)]
    exact adds _

end Create

theorem applyChanges_append (first second : List Change) (prefs : Store) :
    applyChanges prefs (first ++ second) =
      (applyChanges prefs first).bind fun next => applyChanges next second := by
  induction first generalizing prefs with
  | nil => rfl
  | cons change rest ih =>
    rw [cons_append, applyChanges, applyChanges, bind_assoc]
    exact congrArg _ (funext fun next => ih next)

theorem setPref_last {prefs : Store} {front : List PurplePref} {node : PurplePref}
    (nodes : prefs.nodes = front ++ [node]) (apart : ∀ other ∈ front, other.pref ≠ node.pref)
    (notRoot : node.pref ≠ root) {name : Text} (found : findPref prefs name = some node.pref)
    {store : PrefValue → Option PrefValue} {value : PrefValue}
    (stored : store node.value = some value) (added : Option Store) :
    setPref prefs name store added =
      some { prefs with nodes := front ++ [{ node with value }] } := by
  have isNode : prefs.node node.pref = some node := by
    rw [Store.node, nodes, find?_append, find?_eq_none.mpr ?_, none_or]
    · simp
    · intro other member
      simpa using apart other member
  have isValue : prefs.value node.pref = some node.value := by
    rw [Store.value, if_neg notRoot, isNode]
    rfl
  have kept : front.map (fun other => if other.pref = node.pref then { other with value } else other) =
      front := by
    refine (map_congr_left fun other member => ?_).trans (List.map_id' front)
    exact if_neg (apart other member)
  unfold setPref
  rw [found]
  simp only [isValue, map_some, stored]
  rw [Store.setValue, nodes, map_append, kept]
  simp

def IsList (make : List (Option Text) → PrefValue) : Prop :=
  ∀ list item, appendItem item (make list) = some (make (list ++ [item]))

theorem items_apply {make : List (Option Text) → PrefValue} (isList : IsList make)
    {prefsStack : List Text} (items : List (Option Text)) (clean : ∀ item ∈ items, cleanText item)
    {prefs : Store} {front : List PurplePref} {node : PurplePref} {list : List (Option Text)}
    (nodes : prefs.nodes = front ++ [{ node with value := make list }])
    (apart : ∀ other ∈ front, other.pref ≠ node.pref) (notRoot : node.pref ≠ root)
    (found : findPref prefs (itemPath prefsStack) = some node.pref) :
    applyChanges prefs (items.map (itemChange prefsStack)) =
      some { prefs with nodes := front ++ [{ node with value := make (list ++ items) }] } := by
  induction items generalizing prefs list with
  | nil =>
    rw [append_nil, ← nodes]
    rfl
  | cons item rest ih =>
    have here := clean_text (clean item mem_cons_self)
    have set := setPref_last nodes apart notRoot found (isList list item) (some prefs)
    have cleanRest : ∀ other ∈ rest, cleanText other :=
      fun other member => clean other (mem_cons_of_mem _ member)
    have last := @ih cleanRest
      { prefs with nodes := front ++ [{ node with value := make (list ++ [item]) }] }
      (list ++ [item]) rfl found
    rw [map_cons, applyChanges, itemChange, here]
    simp only [applyChange, set, bind_some]
    rw [last, append_assoc, singleton_append]

/-! ### Whole trees -/

section Trees

variable {prefs : Store} {parent : Nat} {names : List Text}

theorem childNamed_absent {name : Text}
    (absent : ∀ node ∈ prefs.nodes, node.parent = parent → node.name ≠ name) :
    prefs.childNamed parent name = none := by
  rw [Store.childNamed, find?_eq_none]
  intro node member
  obtain ⟨inNodes, isChild⟩ := mem_filter.mp member
  simpa using absent node inNodes (by simpa using isChild)

theorem findPref_withNode {name : Text} (notRoot : ¬(names = [] ∧ name = [])) (value : PrefValue) :
    findPref (withNode prefs parent (fullPath (names ++ [name])) value)
      (fullPath (names ++ [name])) = some prefs.fresh := by
  have slash : (fullPath (names ++ [name])).head? = some '/' := by
    cases names <;> rfl
  rw [findPref, if_neg (not_not.mpr slash), if_neg (path_not_slash notRoot)]
  exact HashTable.lookup_insert_self _ _ _

theorem list_applies {name : Text} (place : Place prefs parent names name)
    (notRoot : ¬(names = [] ∧ name = [])) {make : List (Option Text) → PrefValue}
    (isList : IsList make) (inner : List (Option Text)) (clean : ∀ item ∈ inner, cleanText item)
    (type : (make []).type = (make inner).type) {prefsStack : List Text}
    (path : itemPath prefsStack = fullPath (names ++ [name])) :
    ∃ next, applyChanges (withNode prefs parent (fullPath (names ++ [name])) (make []))
        (inner.map (itemChange prefsStack)) = some next ∧ Agrees next ∧
      next.nodes = prefs.nodes ++ [{ pref := prefs.fresh, parent, name, value := make inner }] ∧
      next.fresh = prefs.fresh + 1 := by
  have nodes : (withNode prefs parent (fullPath (names ++ [name])) (make [])).nodes =
      prefs.nodes ++ [{ pref := prefs.fresh, parent, name, value := make [] }] := by
    rw [withNode, place_basename place]
  have apart : ∀ other ∈ prefs.nodes, other.pref ≠ prefs.fresh := fun other member =>
    Nat.ne_of_lt (place.agrees.fresh _ (entry_mem member))
  have found : findPref (withNode prefs parent (fullPath (names ++ [name])) (make []))
      (itemPath prefsStack) = some prefs.fresh := by
    rw [path]
    exact findPref_withNode notRoot _
  have filled := @items_apply make isList prefsStack inner clean _ prefs.nodes
    { pref := prefs.fresh, parent, name, value := make [] } [] nodes apart
    (Nat.ne_of_gt place.agrees.started) found
  refine ⟨_, filled, ?_, rfl, rfl⟩
  refine agrees_same (place_add place (make [])).2 ⟨?_, rfl, rfl⟩
  rw [Store.tree, Store.tree, nodes]
  simp [PurplePref.entry, type]

theorem pref_applies {prefsStack : List Text} (stack : prefsStack.reverse = names) {name : Text}
    (place : Place prefs parent names name) (keeps : Xml.KeepsSpace name) {value : PrefValue}
    (clean : value.Clean) (typed : names = [] → name = [] → value = .none) :
    ∃ next, applyChanges prefs (.pref (prefPath prefsStack (reported name)) value.type
          (loadedText value) :: value.items.map (itemChange (reported name :: prefsStack))) =
        some next ∧ Agrees next ∧
      next.nodes = prefs.nodes ++ [{ pref := prefs.fresh, parent, name, value }] ∧
      next.fresh = prefs.fresh + 1 := by
  have sameName : reported name = name := reported_eq.mpr keeps
  have path : prefPath prefsStack name = fullPath (names ++ [name]) := by
    rw [prefPath_eq, stack]
  have items : itemPath (name :: prefsStack) = fullPath (names ++ [name]) := by
    rw [itemPath_eq, reverse_cons, stack]
  rw [sameName, applyChanges, path, place_apply place clean typed, bind_some]
  have complete : value.emptied = value → value.items = [] →
      ∃ next, applyChanges (withNode prefs parent (fullPath (names ++ [name])) value.emptied)
          (value.items.map (itemChange (name :: prefsStack))) = some next ∧ Agrees next ∧
        next.nodes = prefs.nodes ++ [{ pref := prefs.fresh, parent, name, value }] ∧
        next.fresh = prefs.fresh + 1 := by
    intro whole noItems
    rw [whole, noItems]
    refine ⟨_, rfl, (place_add place value).2, ?_, rfl⟩
    rw [withNode, place_basename place]
  cases value with
  | none => exact complete rfl rfl
  | boolean boolean => exact complete rfl rfl
  | integer integer => exact complete rfl rfl
  | string text => exact complete rfl rfl
  | path text => exact complete rfl rfl
  | stringList list =>
    exact list_applies place (fun both => by cases typed both.1 both.2) (fun _ _ => rfl) list clean
      rfl items
  | pathList list =>
    exact list_applies place (fun both => by cases typed both.1 both.2) (fun _ _ => rfl) list clean
      rfl items

structure Room (prefs : Store) (parent : Nat) (names : List Text) (forest : List PrefTree) : Prop where
  agrees : Agrees prefs
  path : Path prefs.tree parent names
  unnamed : ∀ tree ∈ forest, ∀ node ∈ prefs.nodes, node.parent = parent → node.name ≠ tree.name
  named : ∀ entry ∈ prefs.tree, entry.address = parent → ¬(entry.parent = root ∧ entry.name = [])
  top : names = [] → ∀ tree ∈ forest, TopEmpty tree

end Trees

mutual

theorem tree_applies (tree : PrefTree) {prefs : Store} {parent : Nat} {names prefsStack : List Text}
    (stack : prefsStack.reverse = names) (room : Room prefs parent names [tree])
    (clean : tree.Clean) (plain : tree.Plain) (distinct : tree.Distinct) :
    ∃ next, applyChanges prefs (treeChanges prefsStack tree) = some next ∧ Agrees next ∧
      next.nodes = prefs.nodes ++ treeNodes prefs.fresh parent tree ∧
      next.fresh = prefs.fresh + tree.size := by
  obtain ⟨name, value, children⟩ := tree
  obtain ⟨keeps, cleanValue, cleanChildren⟩ := clean
  have place : Place prefs parent names name :=
    { agrees := room.agrees
      path := room.path
      unnamed := childNamed_absent (room.unnamed _ mem_cons_self)
      plain := plain.1
      named := room.named }
  have top : names = [] → name = [] → value = .none ∧ children = [] :=
    fun atTop => room.top atTop _ mem_cons_self
  obtain ⟨middle, applies, agrees, nodes, fresh⟩ := pref_applies stack place keeps cleanValue
    fun atTop empty => (top atTop empty).1
  have sameName : reported name = name := reported_eq.mpr keeps
  rw [treeChanges, ← cons_append, applyChanges_append, applies, bind_some, sameName]
  by_cases isTop : names = [] ∧ name = []
  · rw [(top isTop.1 isTop.2).2]
    refine ⟨middle, rfl, agrees, ?_, ?_⟩
    · rw [nodes]
      rfl
    · rw [fresh]
      rfl
  · have tree : middle.tree = prefs.tree ++
        [{ address := prefs.fresh, parent, name, kind := value.type }] := by
      rw [Store.tree, nodes, map_append]
      rfl
    have path : Path middle.tree prefs.fresh (names ++ [name]) := by
      rw [tree]
      exact .child (mem_append_right _ mem_cons_self) (path_append room.path)
    have olderParent := live_old room.agrees (path_live room.path)
    have childRoom : Room middle prefs.fresh (names ++ [name]) children := by
      refine ⟨agrees, path, ?_, ?_, ?_⟩
      · intro child _ node member isChild
        rw [nodes] at member
        rcases mem_append.mp member with old | new
        · have parentLive := live_old room.agrees (room.agrees.tree.parents _ (entry_mem old))
          rw [entry_parent, isChild] at parentLive
          exact absurd parentLive (Nat.lt_irrefl _)
        · rw [mem_singleton.mp new] at isChild
          exact absurd isChild (Nat.ne_of_lt olderParent)
      · intro entry member here
        rw [tree] at member
        rcases mem_append.mp member with old | new
        · exact absurd here (Nat.ne_of_lt (room.agrees.fresh entry old))
        · rw [mem_singleton.mp new]
          rintro ⟨atRoot, empty⟩
          have path := room.path
          change parent = root at atRoot
          rw [atRoot] at path
          exact isTop ⟨path_root room.agrees.tree path, empty⟩
      · intro impossible
        exact absurd impossible (append_ne_nil_of_right_ne_nil _ (by simp))
    obtain ⟨next, childrenApply, nextAgrees, nextNodes, nextFresh⟩ :=
      @forest_applies children middle prefs.fresh (names ++ [name]) (name :: prefsStack)
        (by rw [reverse_cons, stack]) childRoom cleanChildren plain.2 distinct.2 distinct.1
    refine ⟨next, childrenApply, nextAgrees, ?_, ?_⟩
    · rw [nextNodes, nodes, fresh, treeNodes, append_assoc, singleton_append]
    · rw [nextFresh, fresh, PrefTree.size]
      omega

theorem forest_applies (forest : List PrefTree) {prefs : Store} {parent : Nat}
    {names prefsStack : List Text} (stack : prefsStack.reverse = names)
    (room : Room prefs parent names forest) (clean : forestClean forest)
    (plain : forestPlain forest) (distinct : forestDistinct forest)
    (siblings : (forest.map PrefTree.name).Nodup) :
    ∃ next, applyChanges prefs (forestChanges prefsStack forest) = some next ∧ Agrees next ∧
      next.nodes = prefs.nodes ++ forestNodes prefs.fresh parent forest ∧
      next.fresh = prefs.fresh + forestSize forest := by
  match forest with
  | [] => exact ⟨prefs, rfl, room.agrees, by rw [forestNodes, append_nil], rfl⟩
  | tree :: rest =>
    obtain ⟨others, later⟩ := nodup_cons.mp siblings
    have firstRoom : Room prefs parent names [tree] := by
      refine ⟨room.agrees, room.path, ?_, room.named, ?_⟩
      · intro other member
        rw [mem_singleton.mp member]
        exact room.unnamed tree mem_cons_self
      · intro atTop other member
        rw [mem_singleton.mp member]
        exact room.top atTop tree mem_cons_self
    obtain ⟨middle, applies, agrees, nodes, fresh⟩ :=
      tree_applies tree stack firstRoom clean.1 plain.1 distinct.1
    have olderParent := live_old room.agrees (path_live room.path)
    have within : ∀ entry ∈ prefs.tree, entry ∈ middle.tree := by
      intro entry member
      obtain ⟨node, inNodes, rfl⟩ := List.mem_map.mp member
      refine entry_mem ?_
      rw [nodes]
      exact mem_append_left _ inNodes
    have restRoom : Room middle parent names rest := by
      refine ⟨agrees, path_mono within room.path, ?_, ?_, ?_⟩
      · intro other inRest node member isChild
        rw [nodes] at member
        rcases mem_append.mp member with old | new
        · exact room.unnamed other (mem_cons_of_mem _ inRest) node old isChild
        · obtain ⟨-, parents⟩ := treeNodes_range prefs.fresh parent tree node new
          rcases parents with here | between
          · rw [here]
            intro same
            exact others (List.mem_map.mpr ⟨other, inRest, same.symm⟩)
          · omega
      · intro entry member here
        obtain ⟨node, inNodes, rfl⟩ := List.mem_map.mp member
        rw [nodes] at inNodes
        rcases mem_append.mp inNodes with old | new
        · exact room.named _ (entry_mem old) here
        · obtain ⟨between, -⟩ := treeNodes_range prefs.fresh parent tree node new
          rw [entry_address] at here
          omega
      · exact fun atTop other inRest => room.top atTop other (mem_cons_of_mem _ inRest)
    obtain ⟨next, restApply, nextAgrees, nextNodes, nextFresh⟩ :=
      forest_applies rest stack restRoom clean.2 plain.2 distinct.2 later
    refine ⟨next, ?_, nextAgrees, ?_, ?_⟩
    · rw [forestChanges, applyChanges_append, applies]
      exact restApply
    · rw [nextNodes, nodes, fresh, forestNodes, append_assoc]
    · rw [nextFresh, fresh, forestSize]
      omega

end

end Purple.Prefs
