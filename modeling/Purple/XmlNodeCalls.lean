/-
Every finite sequence of calls on live nodes keeps the trees of xmlnode.c well
formed, and no call of such a sequence uses a freed node.
-/

import Purple.XmlNodeTree

namespace Purple.Xml

open List Memory PartialRun

/-- Following `next` from `first` meets these live nodes and then NULL. -/
inductive ChildChain (heap : NodeHeap) : Option Nat → List Nat → Prop where
  | done : ChildChain heap none []
  | link {node : Nat} {cell : XmlNode} {rest : List Nat} (live : heap.cells node = some cell)
      (later : ChildChain heap cell.next rest) : ChildChain heap (some node) (node :: rest)

def SameAttribute (heap : NodeHeap) (first second : Nat) : Prop :=
  ∃ key, attribKey heap first = some key ∧ attribKey heap second = some key

structure Children (heap : NodeHeap) (node : Nat) (cell : XmlNode) (list : List Nat) : Prop where
  chain : ChildChain heap cell.child list
  acyclic : list.Nodup
  parent : ∀ kid ∈ list, ∃ below, heap.cells kid = some below ∧ below.parent = some node
  lastchild : cell.lastchild = list.getLast?
  attribs : ∀ first ∈ list, ∀ second ∈ list, SameAttribute heap first second → first = second

def Names (heap : NodeHeap) (node target : Nat) : Prop :=
  ∃ cell, heap.cells node = some cell ∧
    (cell.parent = some target ∨ cell.child = some target ∨ cell.lastchild = some target ∨
      cell.next = some target)

structure WellFormed (heap : NodeHeap) : Prop where
  children : ∀ {node cell}, heap.cells node = some cell → ∃ list, Children heap node cell list
  live : ∀ {node cell target}, heap.cells node = some cell →
    Relation.ReflTransGen (Names heap) node target → ∃ found, heap.cells target = some found

section wellFormed

variable {heap : NodeHeap} {kids : Nat → List Nat}

theorem childChain_of_suffix (tree : Tree heap kids) {node : Nat} {cell : XmlNode}
    (live : heap.cells node = some cell) {front list : List Nat}
    (split : kids node = front ++ list) : ChildChain heap list.head? list := by
  induction list generalizing front with
  | nil => exact .done
  | cons kid rest ih =>
    have member : kid ∈ kids node := by
      rw [split]
      exact mem_append_right _ mem_cons_self
    obtain ⟨-, below, belowLive, -, next⟩ := tree.member live member
    refine .link belowLive ?_
    have unique := tree.unique node
    rw [split] at unique
    rw [next, split, after_append unique]
    have shorter : kids node = (front ++ [kid]) ++ rest := by
      rw [split, append_assoc, singleton_append]
    exact ih shorter

theorem eq_of_sameAttribute {list : List Nat} (distinct : (attribKeys heap list).Nodup)
    {first second : Nat} (inFirst : first ∈ list) (inSecond : second ∈ list)
    (same : SameAttribute heap first second) : first = second := by
  obtain ⟨key, firstKey, secondKey⟩ := same
  induction list with
  | nil => cases inFirst
  | cons head rest ih =>
    have later (other : Nat) (inside : other ∈ rest) (isKey : attribKey heap other = some key) :
        key ∈ attribKeys heap rest := mem_filterMap.mpr ⟨other, inside, isKey⟩
    cases headKey : attribKey heap head with
    | none =>
      rw [attribKeys, filterMap_cons_none headKey] at distinct
      have notHead {other : Nat} (isKey : attribKey heap other = some key) : other ≠ head := by
        rintro rfl
        rw [headKey] at isKey
        cases isKey
      exact ih distinct ((mem_cons.mp inFirst).resolve_left (notHead firstKey))
        ((mem_cons.mp inSecond).resolve_left (notHead secondKey))
    | some found =>
      rw [attribKeys, filterMap_cons_some headKey, nodup_cons] at distinct
      rcases mem_cons.mp inFirst with firstHere | firstLater
      · rw [firstHere, headKey] at firstKey
        cases firstKey
        rcases mem_cons.mp inSecond with secondHere | secondLater
        · rw [firstHere, secondHere]
        · exact absurd (later second secondLater secondKey) distinct.1
      · rcases mem_cons.mp inSecond with secondHere | secondLater
        · rw [secondHere, headKey] at secondKey
          cases secondKey
          exact absurd (later first firstLater firstKey) distinct.1
        · exact ih distinct.2 firstLater secondLater

theorem kid_live (tree : Tree heap kids) {node kid : Nat} {cell : XmlNode}
    (live : heap.cells node = some cell) (member : kid ∈ kids node) :
    ∃ found, heap.cells kid = some found := by
  obtain ⟨-, below, belowLive, -⟩ := tree.member live member
  exact ⟨below, belowLive⟩

theorem names_live (tree : Tree heap kids) {node target : Nat} (names : Names heap node target) :
    ∃ found, heap.cells target = some found := by
  obtain ⟨cell, live, parent | child | lastchild | next⟩ := names
  · exact (tree.parent live parent).2.1
  · rw [tree.child live] at child
    exact kid_live tree live (mem_of_head? child)
  · rw [tree.lastchild live not_false] at lastchild
    exact kid_live tree live (mem_of_getLast? lastchild)
  · -- a node with a successor is in the chain of its parent, as its successor is
    cases named : cell.parent with
    | none =>
      rw [tree.root live named] at next
      cases next
    | some up =>
      obtain ⟨-, ⟨above, aboveLive⟩, inside⟩ := tree.parent live named
      have member : node ∈ kids up := by
        by_contra outside
        exact inside outside
      rw [tree.next_eq aboveLive member live] at next
      exact kid_live tree aboveLive (mem_of_mem_tail (after_mem_tail next))

theorem Linked.wellFormed (tree : Tree heap kids) : WellFormed heap := by
  constructor
  · intro node cell live
    refine ⟨kids node, ?_, tree.unique node, ?_, tree.lastchild live not_false, ?_⟩
    · rw [tree.child live]
      exact childChain_of_suffix tree live (nil_append _).symm
    · intro kid member
      obtain ⟨-, below, belowLive, parent, -⟩ := tree.member live member
      exact ⟨below, belowLive, parent⟩
    · intro first inFirst second inSecond
      exact eq_of_sameAttribute (tree.attribs live) inFirst inSecond
  · intro node cell target live reaches
    induction reaches with
    | refl => exact ⟨cell, live⟩
    | tail _ names _ => exact names_live tree names

end wellFormed

def Handle (heap : NodeHeap) (node : Option Nat) : Prop :=
  ∀ address, node = some address → ∃ cell, heap.cells address = some cell

/-- The memory at `data` is a string when its length is asked for, and else holds
the bytes that `g_memdup` is told to copy. -/
def Readable (memory : List UInt8) (size : Int) : Prop :=
  if size = -1 then 0 ∈ memory else (size % 2 ^ 64).toNat % 2 ^ 32 ≤ memory.length

def Valid (heap : NodeHeap) : Call → Prop
  | .new _ => True
  | .newChild parent _ => Handle heap parent
  | .insertData node data size =>
    Handle heap node ∧ ∀ memory, data = some memory → Readable memory size
  | .setAttrib node _ _ => Handle heap node
  | .setAttribWithNamespace node _ _ _ => Handle heap node
  | .setAttribWithPrefix node _ _ _ => Handle heap node
  | .setAttribFull node _ _ _ _ => Handle heap node
  | .removeAttrib node _ => Handle heap node
  | .removeAttribWithNamespace node _ _ => Handle heap node
  | .free node => Handle heap node
  | .copy src => Handle heap src

section calls

variable {heap : NodeHeap} {kids : Nat → List Nat}

def Kept (result : Option NodeHeap) : Prop :=
  ∃ heap1 kids1, result = some heap1 ∧ Tree heap1 kids1

variable {node : Option Nat}

theorem Linked.unchanged (tree : Tree heap kids) : Kept (some heap) := ⟨heap, kids, rfl, tree⟩

theorem new_kept (tree : Tree heap kids) (name : Option Str) :
    Kept (some (xmlnodeNew heap name)) := by
  rw [xmlnodeNew]
  split
  · refine ⟨_, _, rfl, tree.alloc ⟨rfl, rfl, rfl, rfl⟩ ?_⟩
    intro data impossible
    cases impossible
  · exact tree.unchanged

theorem newChild_kept (tree : Tree heap kids) {parent : Option Nat} (handle : Handle heap parent)
    (name : Option Str) : Kept (xmlnodeNewChild heap parent name) := by
  cases parent with
  | none => exact tree.unchanged
  | some parent =>
    obtain ⟨up, upLive⟩ := handle parent rfl
    rw [xmlnodeNewChild]
    split
    · refine insertChild_tree tree upLive ⟨rfl, rfl, rfl, rfl⟩ ?_ ?_
      · intro data impossible
        cases impossible
      · intro impossible
        cases impossible
    · exact tree.unchanged

theorem readable_room {memory : List UInt8} {size : Int} (readable : Readable memory size) :
    (if size = -1 then (CString.cString memory).length else (size % 2 ^ 64).toNat) % 2 ^ 32 ≤
      memory.length := by
  rw [Readable] at readable
  split at readable
  · rename_i asked
    rw [if_pos asked]
    exact Nat.le_trans (Nat.mod_le _ _) ( takeWhile_prefix _).length_le
  · rename_i given
    rw [if_neg given]
    exact readable

theorem gMemdup_some {memory : List UInt8} {size : Nat} (room : size % 2 ^ 32 ≤ memory.length) :
    ∃ copied, gMemdup memory size = some copied ∧
      ∀ data, copied = some data → size % 2 ^ 32 ≤ data.length := by
  rw [gMemdup]
  split
  · refine ⟨none, rfl, ?_⟩
    intro data impossible
    cases impossible
  · refine ⟨_, rfl, ?_⟩
    intro data same
    cases same
    rw [length_take]
    exact Nat.le_min.mpr ⟨Nat.le_refl _, room⟩

theorem insertData_kept (tree : Tree heap kids) (handle : Handle heap node)
    {data : Option (List UInt8)} {size : Int}
    (readable : ∀ memory, data = some memory → Readable memory size) :
    Kept (xmlnodeInsertData heap node data size) := by
  cases node with
  | none => exact tree.unchanged
  | some node =>
    cases data with
    | none => exact tree.unchanged
    | some memory =>
      obtain ⟨up, upLive⟩ := handle node rfl
      obtain ⟨copied, duplicated, held⟩ := gMemdup_some (readable_room (readable memory rfl))
      rw [xmlnodeInsertData]
      split
      · exact tree.unchanged
      · simp only [duplicated, Option.bind_eq_bind, Option.bind_some]
        refine insertChild_tree tree upLive ⟨rfl, rfl, rfl, rfl⟩ ?_ ?_
        · intro found same _
          exact held found same
        · intro impossible
          cases impossible

theorem removeAttribWithNamespace_kept (tree : Tree heap kids) (handle : Handle heap node)
    (attr xmlns : Option Str) : Kept (xmlnodeRemoveAttribWithNamespace heap node attr xmlns) := by
  cases node with
  | none => exact tree.unchanged
  | some node =>
    cases attr with
    | none => exact tree.unchanged
    | some attr =>
      obtain ⟨up, upLive⟩ := handle node rfl
      obtain ⟨heap1, kids1, removed, trimmed, -⟩ :=
        removeAttribWithNamespace_trimmed tree upLive attr xmlns
      exact ⟨heap1, kids1, removed, trimmed.tree⟩

theorem setAttribFull_kept (tree : Tree heap kids) (handle : Handle heap node)
    (attr xmlns nsPrefix value : Option Str) :
    Kept (xmlnodeSetAttribFull heap node attr xmlns nsPrefix value) := by
  cases node with
  | none => exact tree.unchanged
  | some node =>
    cases attr with
    | none => exact tree.unchanged
    | some attr =>
      cases value with
      | none => exact tree.unchanged
      | some value =>
        obtain ⟨up, upLive⟩ := handle node rfl
        obtain ⟨heap1, kids1, removed, trimmed, free⟩ :=
          removeAttribWithNamespace_trimmed tree upLive attr xmlns
        obtain ⟨up1, upLive1⟩ := trimmed.live
        simp only [xmlnodeSetAttribFull, removed, Option.bind_eq_bind, Option.bind_some]
        refine insertChild_tree trimmed.tree upLive1 ⟨rfl, rfl, rfl, rfl⟩ ?_ ?_
        · intro data _ sized
          exact absurd rfl sized
        · intro _
          exact free

theorem removeAttrib_kept (tree : Tree heap kids) (handle : Handle heap node) (attr : Option Str) :
    ∃ heap1 kids1, xmlnodeRemoveAttrib heap node attr = some heap1 ∧ Tree heap1 kids1 ∧
      Handle heap1 node := by
  cases node with
  | none => exact ⟨heap, kids, rfl, tree, handle⟩
  | some node =>
    obtain ⟨up, upLive⟩ := handle node rfl
    obtain ⟨heap1, kids1, removed, trimmed⟩ := removeAttrib_trimmed tree upLive attr
    refine ⟨heap1, kids1, removed, trimmed.tree, ?_⟩
    intro address same
    cases same
    exact trimmed.live

theorem setAttrib_kept (tree : Tree heap kids) (handle : Handle heap node)
    (attr value : Option Str) : Kept (xmlnodeSetAttrib heap node attr value) := by
  obtain ⟨heap1, kids1, removed, tree1, handle1⟩ := removeAttrib_kept tree handle attr
  rw [xmlnodeSetAttrib, removed]
  exact setAttribFull_kept tree1 handle1 attr none none value

theorem free_kept (tree : Tree heap kids) {node : Nat} {cell : XmlNode}
    (live : heap.cells node = some cell) : Kept (xmlnodeFree heap node) := by
  obtain ⟨heap1, kids1, freed, spec⟩ :=
    xmlnodeFree_freed tree live fun _ impossible => impossible.elim
  exact ⟨heap1, kids1, freed, spec.linked.mono fun _ loose => loose.1⟩

theorem copy_kept (tree : Tree heap kids) {src : Option Nat} (handle : Handle heap src) :
    Kept (xmlnodeCopy heap src) := by
  cases src with
  | none => exact tree.unchanged
  | some src =>
    obtain ⟨cell, live⟩ := handle src rfl
    have closed : ClosedBelow heap kids heap.fresh := by
      intro node found _ foundLive
      exact tree.kids_bounded foundLive
    obtain ⟨heap1, kids1, copied, spec⟩ := (copies (2 * heap.fresh + 1)).1 heap kids _
      heap.fresh src cell tree (fun _ impossible => impossible.elim) closed (Nat.le_refl _) live
      (Heap.lt_fresh live) (by omega)
    refine ⟨heap1, kids1, ?_, spec.linked⟩
    rw [xmlnodeCopy, copied]
    rfl

theorem step_kept (tree : Tree heap kids) (call : Call) (valid : Valid heap call) :
    Kept (step heap call) := by
  cases call with
  | new name => exact new_kept tree name
  | newChild parent name => exact newChild_kept tree valid name
  | insertData node data size => exact insertData_kept tree valid.1 valid.2
  | setAttrib node attr value => exact setAttrib_kept tree valid attr value
  | setAttribWithNamespace node attr xmlns value =>
    exact setAttribFull_kept tree valid attr xmlns none value
  | setAttribWithPrefix node attr nsPrefix value =>
    exact setAttribFull_kept tree valid attr none nsPrefix value
  | setAttribFull node attr xmlns nsPrefix value =>
    exact setAttribFull_kept tree valid attr xmlns nsPrefix value
  | removeAttrib node attr =>
    obtain ⟨heap1, kids1, removed, tree1, -⟩ := removeAttrib_kept tree valid attr
    exact ⟨heap1, kids1, removed, tree1⟩
  | removeAttribWithNamespace node attr xmlns =>
    exact removeAttribWithNamespace_kept tree valid attr xmlns
  | free node =>
    cases node with
    | none => exact tree.unchanged
    | some node =>
      obtain ⟨cell, live⟩ := valid node rfl
      exact free_kept tree live
  | copy src => exact copy_kept tree valid

end calls

theorem empty_tree : Tree Heap.empty fun _ => [] := by
  constructor <;> intro node <;> intros <;> first | exact List.Pairwise.nil | contradiction

/-- A sequence of calls on live nodes is defined, and every state on its way is
well formed. -/
theorem calls_wellFormed {calls : List Call} (valid : Admitted step Valid Heap.empty calls)
    {done : List Call} (initial : done <+: calls) :
    ∃ heap, run step Heap.empty done = some heap ∧ WellFormed heap := by
  obtain ⟨heap, ran, kids, tree⟩ :=
    reached (fun heap => ∃ kids, Tree heap kids)
      (fun heap call ⟨kids, tree⟩ valid =>
        let ⟨heap1, kids1, stepped, tree1⟩ := step_kept tree call valid
        ⟨heap1, stepped, kids1, tree1⟩)
      ⟨_, empty_tree⟩ valid initial
  exact ⟨heap, ran, tree.wellFormed⟩

/-- A duplicate attribute is set, removed through its true and its stale cursor,
and the tree is copied and freed. -/
def sampleCalls : List Call :=
  [.new (some [97]), .setAttrib (some 0) (some [107]) (some [49]),
    .setAttribFull (some 0) (some [107]) (some [110]) none (some [50]),
    .removeAttrib (some 0) (some [107]), .copy (some 0), .free (some 0)]

theorem calls_wellFormed_sample :
    ∃ heap, run step Heap.empty sampleCalls = some heap ∧ WellFormed heap := by
  refine calls_wellFormed ?_ (prefix_refl _)
  refine ⟨trivial, fun heap1 made => ?_⟩
  cases made
  refine ⟨?_, fun heap2 made => ?_⟩
  · rintro address ⟨rfl⟩
    exact ⟨_, rfl⟩
  cases made
  refine ⟨?_, fun heap3 made => ?_⟩
  · rintro address ⟨rfl⟩
    exact ⟨_, rfl⟩
  cases made
  refine ⟨?_, fun heap4 made => ?_⟩
  · rintro address ⟨rfl⟩
    exact ⟨_, rfl⟩
  cases made
  refine ⟨?_, fun heap5 made => ?_⟩
  · rintro address ⟨rfl⟩
    exact ⟨_, rfl⟩
  cases made
  refine ⟨?_, fun heap6 made => trivial⟩
  rintro address ⟨rfl⟩
  exact ⟨_, rfl⟩

end Purple.Xml
