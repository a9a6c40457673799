/-
The preferences of prefs.c.

The nodes below the root are listed in the order of their creation, so the
children of a node, which are appended, are the nodes with that parent in the
order of the list.  The root is at address 0 and an address is never used again.
A function is `none` where the source follows a pointer to a freed node or list.

A C string is the list of its characters.  `validate` is `g_utf8_validate`.
-/

import Purple.HashTable

namespace Purple.Prefs

abbrev Text := List Char

inductive PurplePrefType where
  | none
  | boolean
  | int
  | string
  | stringList
  | path
  | pathList
deriving DecidableEq, Repr

inductive PrefValue where
  | none
  | boolean (boolean : Int32)
  | integer (integer : Int32)
  | string (string : Option Text)
  | stringList (list : List (Option Text))
  | path (path : Option Text)
  | pathList (list : List (Option Text))
deriving DecidableEq, Repr

def PrefValue.type : PrefValue → PurplePrefType
  | .none => .none
  | .boolean _ => .boolean
  | .integer _ => .int
  | .string _ => .string
  | .stringList _ => .stringList
  | .path _ => .path
  | .pathList _ => .pathList

def root : Nat := 0

structure PurplePref where
  pref : Nat
  parent : Nat
  name : Text
  value : PrefValue
deriving DecidableEq, Repr

structure Store where
  nodes : List PurplePref
  prefsHash : HashTable Text Nat
  fresh : Nat

/-- After `purple_prefs_init`. -/
def purplePrefsInit : Store := { nodes := [], prefsHash := HashTable.empty, fresh := 1 }

namespace Store

def node (prefs : Store) (pref : Nat) : Option PurplePref :=
  prefs.nodes.find? fun node => node.pref = pref

def isLive (prefs : Store) (pref : Nat) : Prop :=
  pref = root ∨ ∃ node ∈ prefs.nodes, node.pref = pref

instance (prefs : Store) (pref : Nat) : Decidable (prefs.isLive pref) :=
  inferInstanceAs (Decidable (pref = root ∨ ∃ node ∈ prefs.nodes, node.pref = pref))

def children (prefs : Store) (parent : Nat) : List PurplePref :=
  prefs.nodes.filter fun node => node.parent = parent

/-- `first_child` -/
def firstChild (prefs : Store) (parent : Nat) : Option PurplePref :=
  (prefs.children parent).head?

/-- `sibling`: the next child of the same parent is the next younger one. -/
def sibling (prefs : Store) (node : PurplePref) : Option PurplePref :=
  (prefs.children node.parent).find? fun other => node.pref < other.pref

def childNamed (prefs : Store) (parent : Nat) (name : Text) : Option PurplePref :=
  (prefs.children parent).find? fun node => node.name = name

def value (prefs : Store) (pref : Nat) : Option PrefValue :=
  if pref = root then some .none else (prefs.node pref).map PurplePref.value

def setValue (prefs : Store) (pref : Nat) (value : PrefValue) : Store :=
  { prefs with
    nodes := prefs.nodes.map fun node => if node.pref = pref then { node with value } else node }

end Store

def findPref (prefs : Store) (name : Text) : Option Nat :=
  if name.head? ≠ some '/' then none
  else if name = ['/'] then some root
  else prefs.prefsHash.lookup name

def getPathDirname (name : Text) : Text :=
  if '/' ∈ name then
    let str := (name.reverse.dropWhile (· ≠ '/')).tail.reverse
    if str = [] then ['/'] else str
  else ['.']

def getPathBasename (name : Text) : Text := (name.reverse.takeWhile (· ≠ '/')).reverse

/-- The names from the top level down to `pref`. -/
def namesTo (prefs : Store) : Nat → Nat → Option (List Text)
  | 0, _ => none
  | fuel + 1, pref =>
    if pref = root then some []
    else (prefs.node pref).bind fun node =>
      (namesTo prefs fuel node.parent).map (· ++ [node.name])

def fullPath (names : List Text) : Text := names.flatMap ('/' :: ·)

/-- The parent of a node is older, so that `pref` bounds the way to the root. -/
def prefFullName (prefs : Store) (pref : Nat) : Option Text :=
  if pref = root then some ['/'] else (namesTo prefs (pref + 1) pref).map fullPath

def findPrefParent (prefs : Store) (name : Text) : Option Nat :=
  if getPathDirname name = ['/'] then some root else findPref prefs (getPathDirname name)

def addPref (prefs : Store) (value : PrefValue) (name : Text) : Option Store :=
  match findPrefParent prefs name with
  | none => some prefs
  | some parent =>
    if ¬prefs.isLive parent then none
    else if (prefs.childNamed parent (getPathBasename name)).isSome then some prefs
    else
      some
        { nodes := prefs.nodes ++
            [{ pref := prefs.fresh, parent, name := getPathBasename name, value }]
          prefsHash := prefs.prefsHash.insert name prefs.fresh
          fresh := prefs.fresh + 1 }

def isValid (validate : Text → Bool) (string : Option Text) : Bool := string.all validate

def purplePrefsAddNone (prefs : Store) (name : Text) : Option Store := addPref prefs .none name

def purplePrefsAddBool (prefs : Store) (name : Text) (value : Int32) : Option Store :=
  addPref prefs (.boolean value) name

def purplePrefsAddInt (prefs : Store) (name : Text) (value : Int32) : Option Store :=
  addPref prefs (.integer value) name

def purplePrefsAddString (validate : Text → Bool) (prefs : Store) (name : Text)
    (value : Option Text) : Option Store :=
  if isValid validate value then addPref prefs (.string value) name else some prefs

def purplePrefsAddStringList (validate : Text → Bool) (prefs : Store) (name : Text)
    (value : List (Option Text)) : Option Store :=
  addPref prefs (.stringList (value.filter (isValid validate))) name

def purplePrefsAddPath (prefs : Store) (name : Text) (value : Option Text) : Option Store :=
  addPref prefs (.path value) name

def purplePrefsAddPathList (prefs : Store) (name : Text) (value : List (Option Text)) :
    Option Store :=
  addPref prefs (.pathList value) name

/-- A pref that is found keeps its value when `store` refuses its type; one that
is not found is added with `added`. -/
def setPref (prefs : Store) (name : Text) (store : PrefValue → Option PrefValue)
    (added : Option Store) : Option Store :=
  match findPref prefs name with
  | none => added
  | some pref => (prefs.value pref).map fun old =>
    match store old with
    | none => prefs
    | some value => prefs.setValue pref value

def storeBool (value : Int32) : PrefValue → Option PrefValue
  | .boolean _ => some (.boolean value)
  | _ => none

def storeInt (value : Int32) : PrefValue → Option PrefValue
  | .integer _ => some (.integer value)
  | _ => none

def storeString (value : Option Text) : PrefValue → Option PrefValue
  | .string _ => some (.string value)
  | .path _ => some (.path value)
  | _ => none

def storeStringList (value : List (Option Text)) : PrefValue → Option PrefValue
  | .stringList _ => some (.stringList value)
  | _ => none

def storePath (value : Option Text) : PrefValue → Option PrefValue
  | .path _ => some (.path value)
  | _ => none

def storePathList (value : List (Option Text)) : PrefValue → Option PrefValue
  | .pathList _ => some (.pathList value)
  | _ => none

def purplePrefsSetBool (prefs : Store) (name : Text) (value : Int32) : Option Store :=
  setPref prefs name (storeBool value) (purplePrefsAddBool prefs name value)

def purplePrefsSetInt (prefs : Store) (name : Text) (value : Int32) : Option Store :=
  setPref prefs name (storeInt value) (purplePrefsAddInt prefs name value)

def purplePrefsSetString (validate : Text → Bool) (prefs : Store) (name : Text)
    (value : Option Text) : Option Store :=
  if isValid validate value then
    setPref prefs name (storeString value) (purplePrefsAddString validate prefs name value)
  else some prefs

def purplePrefsSetStringList (validate : Text → Bool) (prefs : Store) (name : Text)
    (value : List (Option Text)) : Option Store :=
  setPref prefs name (storeStringList (value.filter (isValid validate)))
    (purplePrefsAddStringList validate prefs name value)

def purplePrefsSetPath (prefs : Store) (name : Text) (value : Option Text) : Option Store :=
  setPref prefs name (storePath value) (purplePrefsAddPath prefs name value)

def purplePrefsSetPathList (prefs : Store) (name : Text) (value : List (Option Text)) :
    Option Store :=
  setPref prefs name (storePathList value) (purplePrefsAddPathList prefs name value)

/-- The node leaves its siblings and the hash table.  Its full name is read
through its parents. -/
def unlinkPref (prefs : Store) (pref : Nat) : Option Store :=
  (prefFullName prefs pref).map fun name =>
    { prefs with
      nodes := prefs.nodes.filter fun node => node.pref ≠ pref
      prefsHash := prefs.prefsHash.remove name }

/-- Each round removes the first child, or the node when it has none. -/
def removePref : Nat → Nat → Store → Option Store
  | 0, _, _ => none
  | fuel + 1, pref, prefs =>
    match prefs.firstChild pref with
    | some child => (removePref fuel child.pref prefs).bind (removePref fuel pref)
    | none => if pref = root then some prefs else unlinkPref prefs pref

/-- More rounds than there are nodes are never needed. -/
def remove (prefs : Store) (pref : Nat) : Option Store :=
  removePref (prefs.nodes.length + 1) pref prefs

def purplePrefsRemove (prefs : Store) (name : Text) : Option Store :=
  match findPref prefs name with
  | none => some prefs
  | some pref => remove prefs pref

/-- Setting a list frees the old one first: it must not be the list to be set,
unless that is empty. -/
def setList (prefs : Store) (old : Nat) (newName : Text) (list : List (Option Text))
    (set : Option Store) : Option Store :=
  if findPref prefs newName = some old ∧ list ≠ [] then none else set

/-- The value of the old pref is stored under the new name. -/
def moveValue (validate : Text → Bool) (prefs : Store) (old : Nat) (newName : Text) :
    PrefValue → Option Store
  | .none => some prefs
  | .boolean value => purplePrefsSetBool prefs newName value
  | .integer value => purplePrefsSetInt prefs newName value
  | .string value => purplePrefsSetString validate prefs newName value
  | .stringList value =>
    setList prefs old newName value (purplePrefsSetStringList validate prefs newName value)
  | .path value => purplePrefsSetPath prefs newName value
  | .pathList value => setList prefs old newName value (purplePrefsSetPathList prefs newName value)

/-- The end of `purple_prefs_rename_node`, behind the loop. -/
def finishRename (validate : Text → Bool) (prefs : Store) (old new : Nat) : Option Store := do
  let _ ← prefFullName prefs old
  let newName ← prefFullName prefs new
  let oldValue ← prefs.value old
  let newValue ← prefs.value new
  if oldValue.type ≠ newValue.type then return prefs
  else
    let moved ← moveValue validate prefs old newName oldValue
    remove moved old

mutual

def purplePrefsRenameNode (validate : Text → Bool) :
    Nat → Nat → Nat → Store → Option Store
  | 0, _, _, _ => none
  | fuel + 1, old, new, prefs =>
    if ¬prefs.isLive old then none
    else
      (renameChildren validate fuel new (prefs.firstChild old) prefs).bind fun renamed =>
        finishRename validate renamed old new

def renameChildren (validate : Text → Bool) :
    Nat → Nat → Option PurplePref → Store → Option Store
  | 0, _, _, _ => none
  | _ + 1, _, none, prefs => some prefs
  | fuel + 1, new, some child, prefs =>
    if ¬prefs.isLive child.pref ∨ ¬prefs.isLive new then none
    else
      match prefs.childNamed new child.name with
      | none => renameChildren validate fuel new (prefs.sibling child) prefs
      | some newChild =>
        (purplePrefsRenameNode validate fuel child.pref newChild.pref prefs).bind
          (renameChildren validate fuel new (prefs.sibling child))

end

/-- Each node is renamed once and passed once as a child. -/
def rename (validate : Text → Bool) (prefs : Store) (old new : Nat) : Option Store :=
  purplePrefsRenameNode validate (2 * prefs.nodes.length + 2) old new prefs

def purplePrefsRename (validate : Text → Bool) (prefs : Store) (oldName newName : Text) :
    Option Store :=
  match findPref prefs oldName, findPref prefs newName with
  | some old, some new => rename validate prefs old new
  | _, _ => some prefs

def purplePrefsRenameBooleanToggle (prefs : Store) (oldName newName : Text) : Option Store :=
  match findPref prefs oldName with
  | none => some prefs
  | some old =>
    match prefs.value old with
    | none => none
    | some (.boolean boolean) =>
      if (prefs.firstChild old).isSome then some prefs
      else
        match findPref prefs newName with
        | none => some prefs
        | some new => do
          let newValue ← prefs.value new
          if newValue.type ≠ .boolean then return prefs
          else
            let set ← purplePrefsSetBool prefs newName (if boolean = 0 then 1 else 0)
            remove set old
    | some _ => some prefs

end Purple.Prefs
