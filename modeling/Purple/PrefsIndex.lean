/-
The preferences and their hash table: every node is found under its full name.
-/

import Mathlib.Data.List.TakeWhile
import Purple.NamedTree
import Purple.PartialRun
import Purple.Prefs

namespace Purple.Prefs

open List Option NamedTree

def PurplePref.entry (node : PurplePref) : Entry Text PurplePrefType :=
  { address := node.pref, parent := node.parent, name := node.name, kind := node.value.type }

variable {name : Text} {node : PurplePref} {pref parent : Nat} {names : List Text}
  {store : PrefValue → Option PrefValue}

@[simp] theorem entry_address (node : PurplePref) : node.entry.address = node.pref := rfl

@[simp] theorem entry_parent (node : PurplePref) : node.entry.parent = node.parent := rfl

@[simp] theorem entry_name (node : PurplePref) : node.entry.name = node.name := rfl

@[simp] theorem entry_kind (node : PurplePref) : node.entry.kind = node.value.type := rfl

def Store.tree (prefs : Store) : List (Entry Text PurplePrefType) :=
  prefs.nodes.map PurplePref.entry

/-- The hash table maps the full name of every node to that node and has no
other entry; siblings have different names, and parents are there. -/
structure Indexed (prefs : Store) : Prop where
  index : ∀ key pref, prefs.prefsHash.lookup key = some pref ↔
    (∃ node ∈ prefs.nodes, node.pref = pref) ∧ prefFullName prefs pref = some key
  siblings : prefs.nodes.Pairwise fun first second =>
    first.parent = second.parent → first.name ≠ second.name
  parents : ∀ node ∈ prefs.nodes, prefs.isLive node.parent

/-- What the calls keep.  A top-level pref with the empty name has the full name
of the root, and so nothing is added to it. -/
structure Agrees (prefs : Store) : Prop where
  tree : WellFormed prefs.tree
  fresh : ∀ entry ∈ prefs.tree, entry.address < prefs.fresh
  started : root < prefs.fresh
  plain : ∀ entry ∈ prefs.tree, '/' ∉ entry.name
  childless : ∀ entry ∈ prefs.tree, entry.parent = root → entry.name = [] →
    ∀ child ∈ prefs.tree, child.parent ≠ entry.address
  index : ∀ key pref, prefs.prefsHash.lookup key = some pref ↔
    pref ≠ root ∧ ∃ names, Path prefs.tree pref names ∧ key = fullPath names

/-! ### Names -/

theorem name_split (slash : '/' ∈ name) :
    ∃ front, name = front ++ '/' :: getPathBasename name ∧
      getPathDirname name = if front = [] then ['/'] else front := by
  have inReverse : '/' ∈ name.reverse := mem_reverse.mpr slash
  have cut : name.reverse.takeWhile (· ≠ '/') ++ name.reverse.dropWhile (· ≠ '/') =
      name.reverse := takeWhile_append_dropWhile
  cases behind : name.reverse.dropWhile (· ≠ '/') with
  | nil =>
    have impossible := dropWhile_eq_nil_iff.mp behind '/' inReverse
    simp at impossible
  | cons head rest =>
    have headSlash : head = '/' := by
      have stops := head?_dropWhile_not (fun c => decide (c ≠ '/')) name.reverse
      rw [behind] at stops
      simpa using stops
    subst headSlash
    refine ⟨rest.reverse, ?_, ?_⟩
    · rw [behind] at cut
      have forwards := congrArg List.reverse cut
      rw [reverse_reverse, reverse_append, reverse_cons, append_assoc] at forwards
      exact forwards.symm
    · simp only [getPathDirname, if_pos slash, behind, tail_cons]

theorem basename_plain (name : Text) : '/' ∉ getPathBasename name := by
  intro member
  rw [getPathBasename, mem_reverse] at member
  have stops := mem_takeWhile_imp member
  simp at stops

theorem cut_unique {first second behindFirst behindSecond : Text} (plainFirst : '/' ∉ first)
    (plainSecond : '/' ∉ second) (nextFirst : ∀ c, behindFirst.head? = some c → c = '/')
    (nextSecond : ∀ c, behindSecond.head? = some c → c = '/')
    (same : first ++ behindFirst = second ++ behindSecond) :
    first = second ∧ behindFirst = behindSecond := by
  induction first generalizing second with
  | nil =>
    cases second with
    | nil => exact ⟨rfl, same⟩
    | cons c rest =>
      rw [nil_append] at same
      have slash := nextFirst c (by rw [same]; rfl)
      rw [slash] at plainSecond
      exact absurd mem_cons_self plainSecond
  | cons c rest ih =>
    cases second with
    | nil =>
      rw [nil_append] at same
      have slash := nextSecond c (by rw [← same]; rfl)
      rw [slash] at plainFirst
      exact absurd mem_cons_self plainFirst
    | cons other others =>
      rw [cons_append, cons_append] at same
      obtain ⟨heads, tails⟩ := List.cons.inj same
      obtain ⟨equal, behind⟩ := ih (fun member => plainFirst (mem_cons_of_mem _ member))
        (fun member => plainSecond (mem_cons_of_mem _ member)) tails
      rw [heads, equal]
      exact ⟨rfl, behind⟩

@[simp] theorem fullPath_nil : fullPath [] = [] := rfl

theorem fullPath_cons (name : Text) (names : List Text) :
    fullPath (name :: names) = '/' :: (name ++ fullPath names) := rfl

theorem fullPath_append (names : List Text) (name : Text) :
    fullPath (names ++ [name]) = fullPath names ++ '/' :: name := by
  simp [fullPath]

theorem fullPath_head (names : List Text) : ∀ c, (fullPath names).head? = some c → c = '/' := by
  cases names with
  | nil =>
    intro c impossible
    cases impossible
  | cons name names =>
    intro c head
    exact (Option.some.inj head).symm

theorem fullPath_injective {first second : List Text} (plainFirst : ∀ name ∈ first, '/' ∉ name)
    (plainSecond : ∀ name ∈ second, '/' ∉ name) (same : fullPath first = fullPath second) :
    first = second := by
  induction first generalizing second with
  | nil =>
    cases second with
    | nil => rfl
    | cons name names => cases same
  | cons name names ih =>
    cases second with
    | nil => cases same
    | cons other others =>
      rw [fullPath_cons, fullPath_cons] at same
      obtain ⟨equal, behind⟩ := cut_unique (plainFirst name mem_cons_self)
        (plainSecond other mem_cons_self) (fullPath_head names) (fullPath_head others)
        (List.cons.inj same).2
      rw [equal, ih (fun inner member => plainFirst inner (mem_cons_of_mem _ member))
        (fun inner member => plainSecond inner (mem_cons_of_mem _ member)) behind]

/-! ### The tree of a store -/

variable {prefs : Store}

theorem entry_mem (member : node ∈ prefs.nodes) : node.entry ∈ prefs.tree :=
  List.mem_map_of_mem member

theorem isLive_iff : prefs.isLive pref ↔ Live prefs.tree pref := by
  unfold Store.isLive Live
  refine or_congr Iff.rfl ⟨?_, ?_⟩
  · rintro ⟨node, member, here⟩
    exact ⟨node.entry, entry_mem member, here⟩
  · rintro ⟨entry, member, here⟩
    obtain ⟨node, inNodes, rfl⟩ := List.mem_map.mp member
    exact ⟨node, inNodes, here⟩

theorem node_some (found : prefs.node pref = some node) : node ∈ prefs.nodes ∧ node.pref = pref :=
  ⟨mem_of_find?_eq_some found, by simpa using find?_some found⟩

theorem node_of_mem (wellFormed : WellFormed prefs.tree) (member : node ∈ prefs.nodes) :
    ∃ found, prefs.node node.pref = some found ∧
      found.entry = node.entry := by
  have present : (prefs.node node.pref).isSome := by
    rw [Store.node, find?_isSome]
    exact ⟨node, member, by simp⟩
  obtain ⟨found, result⟩ := isSome_iff_exists.mp present
  obtain ⟨inNodes, here⟩ := node_some result
  exact ⟨found, result, entry_unique wellFormed (entry_mem inNodes) (entry_mem member) here⟩

theorem namesTo_sound (fuel : Nat) (found : namesTo prefs fuel pref = some names) :
    Path prefs.tree pref names := by
  induction fuel generalizing pref names with
  | zero => cases found
  | succ fuel ih =>
    rw [namesTo] at found
    split at found
    · rename_i atRoot
      cases found
      rw [atRoot]
      exact .root
    · obtain ⟨node, isNode, above⟩ := bind_eq_some_iff.mp found
      obtain ⟨upper, isUpper, rfl⟩ := map_eq_some_iff.mp above
      obtain ⟨member, rfl⟩ := node_some isNode
      exact .child (entry_mem member) (ih isUpper)

theorem namesTo_complete (wellFormed : WellFormed prefs.tree) (path : Path prefs.tree pref names)
    {fuel : Nat} (enough : pref < fuel) : namesTo prefs fuel pref = some names := by
  induction path generalizing fuel with
  | root =>
    cases fuel with
    | zero => exact absurd enough (Nat.not_lt_zero _)
    | succ fuel => rfl
  | @child entry names member above ih =>
    cases fuel with
    | zero => exact absurd enough (Nat.not_lt_zero _)
    | succ fuel =>
      obtain ⟨node, inNodes, rfl⟩ := List.mem_map.mp member
      have positive := address_positive wellFormed member
      have older := wellFormed.older _ member
      obtain ⟨found, result, same⟩ := node_of_mem wellFormed inNodes
      have parent : found.parent = node.parent := congrArg Entry.parent same
      have name : found.name = node.name := congrArg Entry.name same
      have notRoot : node.pref ≠ root := Nat.ne_of_gt positive
      have upper := ih (Nat.lt_of_lt_of_le older (Nat.le_of_lt_succ enough))
      change namesTo prefs (fuel + 1) node.pref = some (names ++ [node.name])
      change namesTo prefs fuel node.parent = some names at upper
      rw [namesTo, if_neg notRoot, result, bind_some, parent, upper, name]
      rfl

theorem prefFullName_iff (wellFormed : WellFormed prefs.tree) (notRoot : pref ≠ root) {key : Text} :
    prefFullName prefs pref = some key ↔
      ∃ names, Path prefs.tree pref names ∧ key = fullPath names := by
  rw [prefFullName, if_neg notRoot, map_eq_some_iff]
  constructor
  · rintro ⟨names, found, rfl⟩
    exact ⟨names, namesTo_sound _ found, rfl⟩
  · rintro ⟨names, path, rfl⟩
    exact ⟨names, namesTo_complete wellFormed path (Nat.lt_succ_self _), rfl⟩

theorem prefFullName_live (wellFormed : WellFormed prefs.tree) (live : Live prefs.tree pref) :
    ∃ key, prefFullName prefs pref = some key := by
  by_cases atRoot : pref = root
  · exact ⟨['/'], if_pos atRoot⟩
  · obtain ⟨names, path⟩ := path_exists wellFormed live
    exact ⟨fullPath names, (prefFullName_iff wellFormed atRoot).mpr ⟨names, path, rfl⟩⟩

theorem agrees_indexed (agrees : Agrees prefs) : Indexed prefs := by
  refine ⟨?_, ?_, ?_⟩
  · intro key pref
    rw [agrees.index]
    constructor
    · rintro ⟨notRoot, names, path, rfl⟩
      refine ⟨?_, (prefFullName_iff agrees.tree notRoot).mpr ⟨names, path, rfl⟩⟩
      exact (isLive_iff.mpr (path_live path)).resolve_left notRoot
    · rintro ⟨⟨node, member, rfl⟩, found⟩
      have notRoot : node.pref ≠ root :=
        Nat.ne_of_gt (address_positive agrees.tree (entry_mem member))
      exact ⟨notRoot, (prefFullName_iff agrees.tree notRoot).mp found⟩
  · have sorted := pairwise_map.mp agrees.tree.sorted
    refine sorted.imp_of_mem ?_
    intro first second left right younger sameParent sameName
    have same := agrees.tree.siblings _ (entry_mem left) _ (entry_mem right) sameParent sameName
    have addresses : first.pref = second.pref := congrArg Entry.address same
    exact Nat.ne_of_lt younger addresses
  · intro node member
    exact isLive_iff.mpr (agrees.tree.parents _ (entry_mem member))

theorem childNamed_some {child : PurplePref} (found : prefs.childNamed parent name = some child) :
    child ∈ prefs.nodes ∧ child.parent = parent ∧ child.name = name := by
  have member := mem_of_find?_eq_some found
  obtain ⟨inNodes, isChild⟩ := mem_filter.mp member
  exact ⟨inNodes, by simpa using isChild, by simpa using find?_some found⟩

theorem childNamed_none (absent : prefs.childNamed parent name = none) :
    ∀ entry ∈ prefs.tree, entry.parent = parent → entry.name ≠ name := by
  intro entry member isChild
  obtain ⟨node, inNodes, rfl⟩ := List.mem_map.mp member
  have unnamed := find?_eq_none.mp absent node (mem_filter.mpr ⟨inNodes, by simpa using isChild⟩)
  simpa using unnamed

theorem findPref_live (agrees : Agrees prefs) (found : findPref prefs name = some pref) :
    Live prefs.tree pref := by
  unfold findPref at found
  split at found
  · cases found
  · split at found
    · cases found
      exact .inl rfl
    · obtain ⟨-, names, path, -⟩ := (agrees.index _ _).mp found
      exact path_live path

/-- The full name finds its node; that of a top-level pref with the empty name
finds the root. -/
theorem findPref_fullName (agrees : Agrees prefs) {key : Text}
    (found : prefFullName prefs pref = some key) :
    findPref prefs key = if key = ['/'] then some root else some pref := by
  by_cases atRoot : pref = root
  · rw [prefFullName, if_pos atRoot] at found
    cases found
    rfl
  · obtain ⟨names, path, rfl⟩ := (prefFullName_iff agrees.tree atRoot).mp found
    have slash : (fullPath names).head? = some '/' := by
      cases names with
      | nil => exact absurd (path_injective agrees.tree path .root) atRoot
      | cons name names => rfl
    have listed : prefs.prefsHash.lookup (fullPath names) = some pref :=
      (agrees.index _ _).mpr ⟨atRoot, names, path, rfl⟩
    rw [findPref, if_neg (not_not.mpr slash), listed]

/-! ### Adding -/

/-- No pref is added under a name of two slashes and then none. -/
def keepsPath (prefs : Store) (name : Text) : Prop :=
  getPathDirname name = ['/'] → name = '/' :: getPathBasename name ∨
    (prefs.childNamed root (getPathBasename name)).isSome

theorem parent_path (agrees : Agrees prefs) (keeps : keepsPath prefs name)
    (unnamed : prefs.childNamed parent (getPathBasename name) = none)
    (found : findPrefParent prefs name = some parent) :
    ∃ names, Path prefs.tree parent names ∧ name = fullPath names ++ '/' :: getPathBasename name ∧
      (∀ entry ∈ prefs.tree, entry.address = parent → ¬(entry.parent = root ∧ entry.name = [])) := by
  unfold findPrefParent at found
  by_cases top : getPathDirname name = ['/']
  · rw [if_pos top] at found
    cases found
    refine ⟨[], .root, ?_, ?_⟩
    · rcases keeps top with plain | present
      · exact plain
      · rw [unnamed] at present
        cases present
    · intro entry member atRoot
      exact absurd atRoot (Nat.ne_of_gt (address_positive agrees.tree member))
  · rw [if_neg top] at found
    have slash : '/' ∈ name := by
      by_contra noSlash
      rw [getPathDirname, if_neg noSlash] at found
      cases found
    obtain ⟨front, cut, dirname⟩ := name_split slash
    have nonempty : front ≠ [] := by
      intro empty
      rw [if_pos empty] at dirname
      exact top dirname
    rw [if_neg nonempty] at dirname
    rw [dirname] at top found
    unfold findPref at found
    rw [if_neg top] at found
    split at found
    · cases found
    · obtain ⟨notRoot, names, path, key⟩ := (agrees.index _ _).mp found
      refine ⟨names, path, by rw [← key]; exact cut, ?_⟩
      rintro entry member rfl ⟨topLevel, empty⟩
      obtain ⟨above, upper, rfl⟩ := path_entry agrees.tree member path
      rw [topLevel] at upper
      rw [path_root agrees.tree upper, empty] at key
      exact top key

theorem live_old (agrees : Agrees prefs) (live : Live prefs.tree pref) : pref < prefs.fresh := by
  rcases live with rfl | ⟨entry, member, rfl⟩
  · exact agrees.started
  · exact agrees.fresh entry member

def withNode (prefs : Store) (parent : Nat) (name : Text) (value : PrefValue) : Store :=
  { nodes := prefs.nodes ++
      [{ pref := prefs.fresh, parent, name := getPathBasename name, value }]
    prefsHash := prefs.prefsHash.insert name prefs.fresh
    fresh := prefs.fresh + 1 }

theorem withNode_tree (prefs : Store) (parent : Nat) (name : Text) (value : PrefValue) :
    (withNode prefs parent name value).tree = prefs.tree ++
      [{ address := prefs.fresh, parent, name := getPathBasename name, kind := value.type }] := by
  simp [Store.tree, withNode, PurplePref.entry]

theorem agrees_withNode (agrees : Agrees prefs) (path : Path prefs.tree parent names)
    (unnamed : prefs.childNamed parent (getPathBasename name) = none)
    (full : name = fullPath names ++ '/' :: getPathBasename name)
    (named : ∀ entry ∈ prefs.tree, entry.address = parent →
      ¬(entry.parent = root ∧ entry.name = [])) (value : PrefValue) :
    Agrees (withNode prefs parent name value) := by
  have older := live_old agrees (path_live path)
  have fresh : ∀ pref, Live prefs.tree pref → pref ≠ prefs.fresh :=
    fun pref live => Nat.ne_of_lt (live_old agrees live)
  have tree : WellFormed (withNode prefs parent name value).tree := by
    rw [withNode_tree]
    exact wellFormed_append agrees.tree agrees.fresh older (path_live path)
      (childNamed_none unnamed)
  rw [withNode_tree] at tree
  have newPath : Path (prefs.tree ++
      [{ address := prefs.fresh, parent, name := getPathBasename name, kind := value.type }])
      prefs.fresh (names ++ [getPathBasename name]) :=
    .child (mem_append_right _ mem_cons_self) (path_append path)
  have plain : ∀ entry ∈ prefs.tree ++
      [{ address := prefs.fresh, parent, name := getPathBasename name, kind := value.type }],
      '/' ∉ entry.name := by
    intro entry member
    rcases mem_append.mp member with old | new
    · exact agrees.plain entry old
    · rw [mem_singleton.mp new]
      exact basename_plain name
  have plainPath : ∀ {pref : Nat} {others : List Text}, Path (prefs.tree ++
      [{ address := prefs.fresh, parent, name := getPathBasename name, kind := value.type }])
      pref others → ∀ other ∈ others, '/' ∉ other := by
    intro pref others found other inside
    obtain ⟨entry, member, rfl⟩ := path_member found other inside
    exact plain entry member
  constructor
  · rw [withNode_tree]
    exact tree
  · rw [withNode_tree]
    intro entry member
    rcases mem_append.mp member with old | new
    · exact Nat.lt_succ_of_lt (agrees.fresh entry old)
    · rw [mem_singleton.mp new]
      exact Nat.lt_succ_self _
  · exact Nat.lt_succ_of_lt agrees.started
  · rw [withNode_tree]
    exact plain
  · rw [withNode_tree]
    intro entry member atRoot empty child childMember
    rcases mem_append.mp member with old | new
    · rcases mem_append.mp childMember with oldChild | newChild
      · exact agrees.childless entry old atRoot empty child oldChild
      · rw [mem_singleton.mp newChild]
        intro same
        exact named entry old same.symm ⟨atRoot, empty⟩
    · rw [mem_singleton.mp new]
      rcases mem_append.mp childMember with oldChild | newChild
      · exact fresh _ (agrees.tree.parents child oldChild)
      · rw [mem_singleton.mp newChild]
        exact Nat.ne_of_lt older
  · intro key pref
    rw [withNode_tree]
    have newKey : name = fullPath (names ++ [getPathBasename name]) := by
      rw [fullPath_append]
      exact full
    by_cases same : key = name
    · subst same
      rw [withNode, HashTable.lookup_insert_self]
      constructor
      · intro found
        cases found
        exact ⟨Nat.ne_of_gt agrees.started, _, newPath, newKey⟩
      · rintro ⟨-, others, found, key⟩
        rw [newKey] at key
        have samePath := fullPath_injective (plainPath newPath) (plainPath found) key
        rw [← samePath] at found
        rw [path_injective tree newPath found]
    · rw [withNode, HashTable.lookup_insert_other _ same, agrees.index]
      refine and_congr_right fun notRoot => ?_
      constructor
      · rintro ⟨others, found, isKey⟩
        exact ⟨others, path_append found, isKey⟩
      · rintro ⟨others, found, isKey⟩
        rcases path_live found with atRoot | ⟨entry, member, rfl⟩
        · exact absurd atRoot notRoot
        · rcases mem_append.mp member with old | new
          · obtain ⟨oldNames, oldPath⟩ := path_exists agrees.tree (.inr ⟨entry, old, rfl⟩)
            rw [path_unique tree found (path_append oldPath)] at isKey
            exact ⟨oldNames, oldPath, isKey⟩
          · rw [mem_singleton.mp new] at found
            rw [path_unique tree found newPath, ← newKey] at isKey
            exact absurd isKey same

theorem agrees_add (agrees : Agrees prefs) (keeps : keepsPath prefs name) (value : PrefValue) :
    ∃ added, addPref prefs value name = some added ∧ Agrees added := by
  unfold addPref
  cases found : findPrefParent prefs name with
  | none => exact ⟨prefs, rfl, agrees⟩
  | some parent =>
    have live : Live prefs.tree parent := by
      unfold findPrefParent at found
      split at found
      · cases found
        exact .inl rfl
      · exact findPref_live agrees found
    simp only [isLive_iff, live, not_true_eq_false, if_false]
    cases unnamed : prefs.childNamed parent (getPathBasename name) with
    | some child => exact ⟨prefs, rfl, agrees⟩
    | none =>
      obtain ⟨names, path, full, named⟩ := parent_path agrees keeps unnamed found
      exact ⟨_, rfl, agrees_withNode agrees path unnamed full named value⟩

/-! ### Setting -/

structure SameTree (before after : Store) : Prop where
  tree : after.tree = before.tree
  prefsHash : after.prefsHash = before.prefsHash
  fresh : after.fresh = before.fresh

theorem sameTree_refl (prefs : Store) : SameTree prefs prefs := ⟨rfl, rfl, rfl⟩

theorem agrees_same {after : Store} (agrees : Agrees prefs) (same : SameTree prefs after) :
    Agrees after := by
  obtain ⟨tree, prefsHash, fresh⟩ := same
  constructor
  · rw [tree]
    exact agrees.tree
  · rw [tree, fresh]
    exact agrees.fresh
  · rw [fresh]
    exact agrees.started
  · rw [tree]
    exact agrees.plain
  · rw [tree]
    exact agrees.childless
  · rw [tree, prefsHash]
    exact agrees.index

theorem value_live (live : Live prefs.tree pref) (wellFormed : WellFormed prefs.tree) :
    ∃ value, prefs.value pref = some value := by
  unfold Store.value
  by_cases atRoot : pref = root
  · exact ⟨.none, if_pos atRoot⟩
  · rw [if_neg atRoot]
    obtain ⟨node, member, rfl⟩ := (isLive_iff.mpr live).resolve_left atRoot
    obtain ⟨found, result, -⟩ := node_of_mem wellFormed member
    exact ⟨found.value, by rw [result]; rfl⟩

theorem value_kind (wellFormed : WellFormed prefs.tree) (member : node ∈ prefs.nodes)
    {value : PrefValue} (found : prefs.value node.pref = some value) :
    value.type = node.value.type := by
  have notRoot : node.pref ≠ root := Nat.ne_of_gt (address_positive wellFormed (entry_mem member))
  obtain ⟨other, result, same⟩ := node_of_mem wellFormed member
  rw [Store.value, if_neg notRoot, result] at found
  cases found
  exact congrArg Entry.kind same

theorem setValue_same (wellFormed : WellFormed prefs.tree) {old value : PrefValue}
    (found : prefs.value pref = some old) (type : value.type = old.type) :
    SameTree prefs (prefs.setValue pref value) := by
  refine ⟨?_, rfl, rfl⟩
  unfold Store.tree Store.setValue
  rw [List.map_map]
  refine map_congr_left fun node member => ?_
  by_cases here : node.pref = pref
  · subst here
    have kind := value_kind wellFormed member found
    simp [PurplePref.entry, type, kind]
  · simp [here]

def KeepsType (store : PrefValue → Option PrefValue) : Prop :=
  ∀ old value, store old = some value → value.type = old.type

theorem setPref_found (wellFormed : WellFormed prefs.tree)
    (found : findPref prefs name = some pref) (live : Live prefs.tree pref)
    (keepsType : KeepsType store) (added : Option Store) :
    ∃ set, setPref prefs name store added = some set ∧ SameTree prefs set ∧
      ∀ node ∈ set.nodes, node ∈ prefs.nodes ∨
        ∃ old, prefs.value pref = some old ∧ store old = some node.value := by
  obtain ⟨old, isOld⟩ := value_live live wellFormed
  unfold setPref
  rw [found]
  simp only [isOld, map_some]
  refine ⟨_, rfl, ?_⟩
  cases stored : store old with
  | none => exact ⟨sameTree_refl prefs, fun node member => .inl member⟩
  | some value =>
    refine ⟨setValue_same wellFormed isOld (keepsType old value stored), ?_⟩
    intro node member
    obtain ⟨before, inNodes, rfl⟩ := List.mem_map.mp member
    by_cases here : before.pref = pref
    · rw [if_pos here]
      exact .inr ⟨old, rfl, stored⟩
    · rw [if_neg here]
      exact .inl inNodes

theorem agrees_set (agrees : Agrees prefs) (keepsType : KeepsType store) {added : Option Store}
    (adds : ∃ next, added = some next ∧ Agrees next) :
    ∃ set, setPref prefs name store added = some set ∧ Agrees set := by
  cases found : findPref prefs name with
  | none =>
    unfold setPref
    rw [found]
    exact adds
  | some pref =>
    obtain ⟨set, result, same, -⟩ :=
      setPref_found agrees.tree found (findPref_live agrees found) keepsType added
    exact ⟨set, result, agrees_same agrees same⟩

theorem keepsType_bool (value : Int32) : KeepsType (storeBool value) := by
  intro old stored result
  cases old <;> cases result
  rfl

theorem keepsType_int (value : Int32) : KeepsType (storeInt value) := by
  intro old stored result
  cases old <;> cases result
  rfl

theorem keepsType_string (value : Option Text) : KeepsType (storeString value) := by
  intro old stored result
  cases old <;> cases result <;> rfl

theorem keepsType_stringList (value : List (Option Text)) : KeepsType (storeStringList value) := by
  intro old stored result
  cases old <;> cases result
  rfl

theorem keepsType_path (value : Option Text) : KeepsType (storePath value) := by
  intro old stored result
  cases old <;> cases result
  rfl

theorem keepsType_pathList (value : List (Option Text)) : KeepsType (storePathList value) := by
  intro old stored result
  cases old <;> cases result
  rfl

/-! ### Removing -/

theorem leaf_of_childless (childless : prefs.firstChild pref = none) :
    ∀ entry ∈ prefs.tree, entry.parent ≠ pref := by
  intro entry member isChild
  obtain ⟨node, inNodes, rfl⟩ := List.mem_map.mp member
  rw [Store.firstChild, head?_eq_none_iff, Store.children, filter_eq_nil_iff] at childless
  exact childless node inNodes (by simpa using isChild)

theorem firstChild_some {child : PurplePref} (found : prefs.firstChild pref = some child) :
    child ∈ prefs.nodes ∧ child.parent = pref := by
  obtain ⟨inNodes, isChild⟩ := mem_filter.mp (mem_of_head? found)
  exact ⟨inNodes, by simpa using isChild⟩

theorem filter_tree (prefs : Store) (pref : Nat) (table : HashTable Text Nat) :
    ({ prefs with
        nodes := prefs.nodes.filter fun node => node.pref ≠ pref
        prefsHash := table } : Store).tree = without prefs.tree pref := by
  unfold Store.tree without
  rw [List.filter_map]
  rfl

theorem agrees_unlink (agrees : Agrees prefs) (live : Live prefs.tree pref)
    (notRoot : pref ≠ root) (leaf : ∀ entry ∈ prefs.tree, entry.parent ≠ pref) :
    ∃ unlinked, unlinkPref prefs pref = some unlinked ∧ Agrees unlinked ∧
      unlinked.nodes = prefs.nodes.filter fun node => node.pref ≠ pref := by
  obtain ⟨names, path⟩ := path_exists agrees.tree live
  have full : prefFullName prefs pref = some (fullPath names) :=
    (prefFullName_iff agrees.tree notRoot).mpr ⟨names, path, rfl⟩
  have tree := wellFormed_without leaf agrees.tree
  have within : ∀ entry ∈ without prefs.tree pref, entry ∈ prefs.tree :=
    fun entry member => (mem_without.mp member).1
  have plainPath : ∀ {other : Nat} {others : List Text}, Path prefs.tree other others →
      ∀ name ∈ others, '/' ∉ name := by
    intro other others found name inside
    obtain ⟨entry, member, rfl⟩ := path_member found name inside
    exact agrees.plain entry member
  refine ⟨_, by rw [unlinkPref, full]; rfl, ?_, rfl⟩
  constructor
  · rw [filter_tree]
    exact tree
  · rw [filter_tree]
    exact fun entry member => agrees.fresh entry (within entry member)
  · exact agrees.started
  · rw [filter_tree]
    exact fun entry member => agrees.plain entry (within entry member)
  · rw [filter_tree]
    exact fun entry member atRoot empty child childMember =>
      agrees.childless entry (within entry member) atRoot empty child (within child childMember)
  · intro key other
    rw [filter_tree]
    by_cases same : key = fullPath names
    · rw [same, HashTable.lookup_remove_self]
      constructor
      · intro impossible
        cases impossible
      · rintro ⟨otherNotRoot, others, found, isKey⟩
        have old := path_mono within found
        have samePath := fullPath_injective (plainPath path) (plainPath old) isKey
        rw [← samePath] at old
        rcases path_live found with atRoot | ⟨entry, member, here⟩
        · exact absurd atRoot otherNotRoot
        · exact absurd (here.trans (path_injective agrees.tree old path)) (mem_without.mp member).2
    · rw [HashTable.lookup_remove_other _ same, agrees.index]
      refine and_congr_right fun otherNotRoot => ?_
      constructor
      · rintro ⟨others, found, isKey⟩
        refine ⟨others, path_without leaf found ?_, isKey⟩
        rintro rfl
        rw [path_unique agrees.tree found path] at isKey
        exact same isKey
      · rintro ⟨others, found, isKey⟩
        exact ⟨others, path_mono within found, isKey⟩

/-- At most the nodes below `pref` are gone, and it is itself. -/
structure Removed (pref : Nat) (before after : Store) : Prop where
  agrees : Agrees after
  nodes : after.nodes.Sublist before.nodes
  survives : ∀ node ∈ before.nodes, ¬Below before.tree pref node.pref → node ∈ after.nodes
  gone : pref ≠ root → ∀ node ∈ after.nodes, node.pref ≠ pref

theorem tree_mono {after : Store} (within : ∀ node ∈ after.nodes, node ∈ prefs.nodes) :
    ∀ entry ∈ after.tree, entry ∈ prefs.tree := by
  intro entry member
  obtain ⟨node, inNodes, rfl⟩ := List.mem_map.mp member
  exact entry_mem (within node inNodes)

theorem removePref_removed (fuel : Nat) (agrees : Agrees prefs) (live : Live prefs.tree pref)
    (enough : younger prefs.tree pref < fuel) :
    ∃ removed, removePref fuel pref prefs = some removed ∧ Removed pref prefs removed := by
  induction fuel generalizing prefs pref with
  | zero => exact absurd enough (Nat.not_lt_zero _)
  | succ fuel ih =>
    rw [removePref]
    cases first : prefs.firstChild pref with
    | none =>
      have leaf := leaf_of_childless first
      by_cases atRoot : pref = root
      · simp only [if_pos atRoot]
        exact ⟨prefs, rfl, agrees, List.Sublist.refl _, fun node member _ => member,
          fun notRoot => absurd atRoot notRoot⟩
      · simp only [if_neg atRoot]
        obtain ⟨unlinked, result, stillAgrees, nodes⟩ := agrees_unlink agrees live atRoot leaf
        refine ⟨unlinked, result, stillAgrees, ?_, ?_, ?_⟩
        · rw [nodes]
          exact filter_sublist
        · intro node member outside
          rw [nodes, mem_filter]
          refine ⟨member, decide_eq_true fun here => outside ?_⟩
          rw [here]
          exact .self
        · intro _ node member
          rw [nodes, mem_filter] at member
          exact of_decide_eq_true member.2
    | some child =>
      obtain ⟨childMember, isChild⟩ := firstChild_some first
      have childEntry := entry_mem childMember
      have childNotRoot : child.pref ≠ root :=
        Nat.ne_of_gt (address_positive agrees.tree childEntry)
      have later : pref < child.pref := by
        have older := agrees.tree.older _ childEntry
        rw [entry_parent, isChild] at older
        exact older
      have fewer := younger_lt childEntry later
      have childLive : Live prefs.tree child.pref := .inr ⟨_, childEntry, rfl⟩
      obtain ⟨middle, removesChild, childRemoved⟩ :=
        ih agrees childLive (Nat.lt_of_lt_of_le fewer (Nat.le_of_lt_succ enough))
      have within : ∀ node ∈ middle.nodes, node ∈ prefs.nodes :=
        fun node member => childRemoved.nodes.subset member
      have stillLive : Live middle.tree pref := by
        rcases isLive_iff.mpr live with atRoot | ⟨node, member, here⟩
        · exact .inl atRoot
        · refine .inr ⟨node.entry, entry_mem (childRemoved.survives node member ?_), here⟩
          rw [here, ← isChild]
          exact not_below_parent agrees.tree childEntry
      have gone : younger middle.tree pref < younger prefs.tree pref := by
        refine younger_gone (childRemoved.nodes.map _) childEntry later ?_
        intro other member
        obtain ⟨node, inNodes, rfl⟩ := List.mem_map.mp member
        exact childRemoved.gone childNotRoot node inNodes
      obtain ⟨removed, removesRest, restRemoved⟩ := ih childRemoved.agrees stillLive
        (Nat.lt_of_lt_of_le gone (Nat.le_of_lt_succ enough))
      refine ⟨removed, by simp only [removesChild, bind_some, removesRest],
        restRemoved.agrees, restRemoved.nodes.trans childRemoved.nodes, ?_, restRemoved.gone⟩
      intro node member outside
      refine restRemoved.survives node (childRemoved.survives node member ?_) ?_
      · intro belowChild
        have upper : Below prefs.tree pref child.pref := by
          refine .child childEntry ?_
          rw [entry_parent, isChild]
          exact .self
        exact outside (below_trans upper belowChild)
      · exact fun below => outside (below_mono (tree_mono within) below)

theorem remove_removed (agrees : Agrees prefs) (live : Live prefs.tree pref) :
    ∃ removed, remove prefs pref = some removed ∧ Removed pref prefs removed := by
  refine removePref_removed _ agrees live (Nat.lt_succ_of_le ?_)
  have bounded := @younger_le_length _ _ prefs.tree pref
  rw [Store.tree, length_map] at bounded
  exact bounded

end Purple.Prefs
