/-
The heap of xmlnode.c as a forest: which links the operations keep, and that no
operation uses or leaves reachable a node that has been freed.

The forest is given by the list of children of every address.  Addresses grow
from a node to its children and along the children of a node, which bounds every
loop and recursion.
-/

import Purple.XmlNode
import Purple.Memory.Siblings
import Purple.PartialRun

namespace Purple.Xml

open List Option Memory

def attribKey (heap : NodeHeap) (node : Nat) : Option (Option Str × Option Str) :=
  (heap.cells node).bind fun cell =>
    if cell.type = .attrib then some (cell.name, cell.xmlns) else none

def XmlNode.content (node : XmlNode) : XmlNode :=
  { node with parent := none, child := none, lastchild := none, next := none }

theorem content_eq {first second : XmlNode} (same : first.content = second.content) :
    (first.name = second.name ∧ first.xmlns = second.xmlns ∧ first.type = second.type) ∧
      first.data = second.data ∧ first.dataSz = second.dataSz := by
  simp only [XmlNode.content, XmlNode.mk.injEq] at same
  exact ⟨⟨same.1, same.2.1, same.2.2.1⟩, same.2.2.2.1, same.2.2.2.2.1⟩

/-- The links are those of the forest `kids`.  A detached node still names a
parent that has let go of it; an unfinished one has no `lastchild` yet. -/
structure Linked (heap : NodeHeap) (kids : Nat → List Nat)
    (detached unfinished : Nat → Prop) : Prop where
  sorted : ∀ node, (kids node).Pairwise (· < ·)
  child : ∀ {node cell}, heap.cells node = some cell → cell.child = (kids node).head?
  lastchild : ∀ {node cell}, heap.cells node = some cell → ¬unfinished node →
    cell.lastchild = (kids node).getLast?
  member : ∀ {node cell kid}, heap.cells node = some cell → kid ∈ kids node →
    node < kid ∧ ∃ below, heap.cells kid = some below ∧ below.parent = some node ∧
      below.next = after (kids node) kid
  parent : ∀ {node cell up}, heap.cells node = some cell → cell.parent = some up →
    up < node ∧ (∃ above, heap.cells up = some above) ∧ (node ∉ kids up → detached node)
  attribs : ∀ {node cell}, heap.cells node = some cell →
    ((kids node).filterMap (attribKey heap)).Nodup
  sized : ∀ {node cell data}, heap.cells node = some cell → cell.data = some data →
    cell.dataSz ≠ 0 → cell.dataSz % 2 ^ 32 ≤ data.length
  root : ∀ {node cell}, heap.cells node = some cell → cell.parent = none → cell.next = none

theorem Linked.mono {heap : NodeHeap} {kids : Nat → List Nat}
    {detached detached1 unfinished : Nat → Prop} (linked : Linked heap kids detached unfinished)
    (weaker : ∀ other, detached other → detached1 other) :
    Linked heap kids detached1 unfinished :=
  { linked with
    parent := fun live named =>
      let ⟨less, aboveLive, alone⟩ := linked.parent live named
      ⟨less, aboveLive, fun notIn => weaker _ (alone notIn)⟩ }

namespace Linked

variable {heap : NodeHeap} {kids : Nat → List Nat} {detached unfinished : Nat → Prop}

theorem unique (linked : Linked heap kids detached unfinished) (node : Nat) :
    (kids node).Nodup :=
  (linked.sorted node).imp fun less => Nat.ne_of_lt less

theorem parent_eq (linked : Linked heap kids detached unfinished) {node kid : Nat}
    {cell below : XmlNode} (live : heap.cells node = some cell) (member : kid ∈ kids node)
    (kidLive : heap.cells kid = some below) : below.parent = some node := by
  obtain ⟨-, found, foundLive, parent, -⟩ := linked.member live member
  rw [foundLive] at kidLive
  cases kidLive
  exact parent

theorem next_eq (linked : Linked heap kids detached unfinished) {node kid : Nat}
    {cell below : XmlNode} (live : heap.cells node = some cell) (member : kid ∈ kids node)
    (kidLive : heap.cells kid = some below) : below.next = after (kids node) kid := by
  obtain ⟨-, found, foundLive, -, next⟩ := linked.member live member
  rw [foundLive] at kidLive
  cases kidLive
  exact next

theorem parent_ne_none (linked : Linked heap kids detached unfinished) {node kid : Nat}
    {cell below : XmlNode} (live : heap.cells node = some cell) (member : kid ∈ kids node)
    (kidLive : heap.cells kid = some below) : below.parent ≠ none := by
  rw [linked.parent_eq live member kidLive]
  exact some_ne_none node

theorem not_kid (linked : Linked heap kids detached unfinished) {node other kid : Nat}
    {cell otherCell : XmlNode} (live : heap.cells node = some cell) (member : kid ∈ kids node)
    (otherLive : heap.cells other = some otherCell) (different : other ≠ node) :
    kid ∉ kids other := by
  intro shared
  obtain ⟨-, below, kidLive, parent, -⟩ := linked.member live member
  have same := linked.parent_eq otherLive shared kidLive
  rw [parent] at same
  exact different (Option.some.inj same).symm

theorem erase_other (linked : Linked heap kids detached unfinished) {node other kid : Nat}
    {cell otherCell : XmlNode} (live : heap.cells node = some cell) (member : kid ∈ kids node)
    (otherLive : heap.cells other = some otherCell) (different : other ≠ node) :
    (kids other).erase kid = kids other :=
  erase_of_not_mem (linked.not_kid live member otherLive different)

theorem kids_bounded (linked : Linked heap kids detached unfinished) {node : Nat}
    {cell : XmlNode} (live : heap.cells node = some cell) :
    ∀ kid ∈ kids node, kid < heap.fresh := by
  intro kid member
  obtain ⟨-, below, kidLive, -⟩ := linked.member live member
  exact Heap.lt_fresh kidLive

end Linked

/-- Every node of `new` is one of `old` with other sibling and child links. -/
def Within (new old : NodeHeap) : Prop :=
  ∀ node cell, new.cells node = some cell →
    ∃ was, old.cells node = some was ∧ cell.content = was.content ∧ cell.parent = was.parent

theorem Within.refl (heap : NodeHeap) : Within heap heap :=
  fun _ cell live => ⟨cell, live, rfl, rfl⟩

theorem Within.trans {first second third : NodeHeap} (later : Within third second)
    (earlier : Within second first) : Within third first := by
  intro node cell live
  obtain ⟨middle, middleLive, content, parent⟩ := later node cell live
  obtain ⟨was, wasLive, wasContent, wasParent⟩ := earlier node middle middleLive
  exact ⟨was, wasLive, content.trans wasContent, parent.trans wasParent⟩

theorem attribKey_of_content {new old : NodeHeap} {node : Nat} {cell was : XmlNode}
    (live : new.cells node = some cell) (wasLive : old.cells node = some was)
    (content : cell.content = was.content) : attribKey new node = attribKey old node := by
  obtain ⟨⟨name, xmlns, type⟩, -⟩ := content_eq content
  rw [attribKey, attribKey, live, wasLive, bind_some, bind_some, type, name, xmlns]

theorem Within.attribKey {new old : NodeHeap} (within : Within new old) {node : Nat}
    {cell : XmlNode} (live : new.cells node = some cell) :
    attribKey new node = attribKey old node := by
  obtain ⟨was, wasLive, content, -⟩ := within node cell live
  exact attribKey_of_content live wasLive content

/-! ### Taking a node out of its chain -/

section bypass

variable {heap heap1 : NodeHeap} {kids : Nat → List Nat} {detached unfinished : Nat → Prop}
  {node parent : Nat} {cell up : XmlNode}

/-- `heap1` differs from `heap` in the links that lead to `node`. -/
structure Bypassed (heap heap1 : NodeHeap) (kids : Nat → List Nat) (node parent : Nat)
    (cell up : XmlNode) : Prop where
  fresh : heap1.fresh = heap.fresh
  atParent : heap1.cells parent = some { up with
    child := if up.child = some node then cell.next else up.child
    lastchild := if up.lastchild = some node then before (kids parent) node else up.lastchild }
  elsewhere : ∀ other, other ≠ parent →
    heap1.cells other = (heap.cells other).map fun left =>
      if before (kids parent) node = some other then { left with next := cell.next } else left

theorem Bypassed.live (bypassed : Bypassed heap heap1 kids node parent cell up) {other : Nat} {was : XmlNode}
    (live : heap.cells other = some was) : ∃ now, heap1.cells other = some now := by
  by_cases same : other = parent
  · rw [same]
    exact ⟨_, bypassed.atParent⟩
  · exact ⟨_, by rw [bypassed.elsewhere other same, live, map_some]⟩

theorem Bypassed.within (bypassed : Bypassed heap heap1 kids node parent cell up)
    (upLive : heap.cells parent = some up) : Within heap1 heap := by
  intro other now live
  by_cases same : other = parent
  · rw [same, bypassed.atParent] at live
    cases live
    exact ⟨up, same ▸ upLive, rfl, rfl⟩
  · rw [bypassed.elsewhere other same] at live
    obtain ⟨was, wasLive, rfl⟩ := map_eq_some_iff.mp live
    refine ⟨was, wasLive, ?_⟩
    split <;> exact ⟨rfl, rfl⟩

theorem Linked.bypass (linked : Linked heap kids detached unfinished)
    (live : heap.cells node = some cell) (upLive : heap.cells parent = some up)
    (member : node ∈ kids parent) (finished : ¬unfinished parent)
    (bypassed : Bypassed heap heap1 kids node parent cell up) :
    Linked heap1 (fun other => (kids other).erase node)
      (fun other => detached other ∨ other = node) unfinished := by
  have within := bypassed.within upLive
  have unique := linked.unique parent
  have next : cell.next = after (kids parent) node := linked.next_eq upLive member live
  have child := linked.child upLive
  have lastchild := linked.lastchild upLive finished
  constructor
  · intro other
    exact (linked.sorted other).sublist erase_sublist
  · intro other now nowLive
    by_cases same : other = parent
    · rw [same, bypassed.atParent] at nowLive
      cases nowLive
      rw [same, head?_erase, ← child, ← next]
    · rw [bypassed.elsewhere other same] at nowLive
      obtain ⟨was, wasLive, rfl⟩ := map_eq_some_iff.mp nowLive
      rw [linked.erase_other upLive member wasLive same, ← linked.child wasLive]
      split <;> rfl
  · intro other now nowLive complete
    by_cases same : other = parent
    · rw [same, bypassed.atParent] at nowLive
      cases nowLive
      rw [same, getLast?_erase unique, ← lastchild]
    · rw [bypassed.elsewhere other same] at nowLive
      obtain ⟨was, wasLive, rfl⟩ := map_eq_some_iff.mp nowLive
      rw [linked.erase_other upLive member wasLive same, ← linked.lastchild wasLive complete]
      split <;> rfl
  · intro other now kid nowLive kidMember
    obtain ⟨was, wasLive, -⟩ := within other now nowLive
    have kidInside : kid ∈ kids other := mem_of_mem_erase kidMember
    obtain ⟨less, below, belowLive, belowParent, belowNext⟩ := linked.member wasLive kidInside
    refine ⟨less, ?_⟩
    by_cases atParent : kid = parent
    · -- the parent is itself a child elsewhere; its own `next` is not touched
      have different : other ≠ parent := Nat.ne_of_lt (atParent ▸ less)
      rw [atParent, upLive] at belowLive
      cases belowLive
      refine ⟨_, (congrArg heap1.cells atParent).trans bypassed.atParent, belowParent, ?_⟩
      rw [linked.erase_other upLive member wasLive different]
      exact belowNext
    · refine ⟨_, by rw [bypassed.elsewhere kid atParent, belowLive, map_some], ?_, ?_⟩
      · split <;> exact belowParent
      · by_cases same : other = parent
        · subst same
          have different : kid ≠ node := by
            rintro rfl
            exact (List.Nodup.not_mem_erase unique) kidMember
          rw [after_erase unique different]
          simp only [before_iff_after unique]
          split
          · exact next
          · exact belowNext
        · rw [linked.erase_other upLive member wasLive same, if_neg]
          · exact belowNext
          · intro previous
            exact linked.not_kid upLive (before_mem unique previous) wasLive same kidInside
  · intro other now above nowLive nowParent
    obtain ⟨was, wasLive, -, parentEq⟩ := within other now nowLive
    rw [parentEq] at nowParent
    obtain ⟨less, ⟨aboveCell, aboveLive⟩, outside⟩ := linked.parent wasLive nowParent
    refine ⟨less, bypassed.live aboveLive, ?_⟩
    intro notIn
    by_cases same : other = node
    · exact Or.inr same
    · exact Or.inl (outside fun inside => notIn ((mem_erase_of_ne same).mpr inside))
  · intro other now nowLive
    obtain ⟨was, wasLive, -⟩ := within other now nowLive
    have keys : ((kids other).erase node).filterMap (attribKey heap1) =
        ((kids other).erase node).filterMap (attribKey heap) := by
      apply filterMap_congr
      intro kid kidMember
      obtain ⟨-, below, belowLive, -⟩ := linked.member wasLive (mem_of_mem_erase kidMember)
      obtain ⟨belowNow, belowNowLive⟩ := bypassed.live belowLive
      exact within.attribKey belowNowLive
    rw [keys]
    exact (linked.attribs wasLive).sublist (erase_sublist.filterMap _)
  · intro other now data nowLive nowData sized
    obtain ⟨was, wasLive, content, -⟩ := within other now nowLive
    obtain ⟨-, dataEq, sizeEq⟩ := content_eq content
    rw [sizeEq] at sized ⊢
    exact linked.sized wasLive (dataEq ▸ nowData) sized
  · intro other now nowLive noParent
    by_cases same : other = parent
    · rw [same, bypassed.atParent] at nowLive
      cases nowLive
      have bare : up.parent = none := noParent
      have noNext := linked.root upLive bare
      exact noNext
    · rw [bypassed.elsewhere other same] at nowLive
      obtain ⟨was, wasLive, rfl⟩ := map_eq_some_iff.mp nowLive
      split at noParent
      · rename_i previous
        have inside := before_mem unique previous
        have bare : was.parent = none := noParent
        exact absurd bare (linked.parent_ne_none upLive inside wasLive)
      · rename_i notBefore
        rw [if_neg notBefore]
        exact linked.root wasLive noParent

end bypass

/-! ### `xmlnode_free` -/

abbrev Forest (heap : NodeHeap) (kids : Nat → List Nat) (detached : Nat → Prop) : Prop :=
  Linked heap kids detached fun _ => False

section free

variable {heap : NodeHeap} {kids : Nat → List Nat} {detached : Nat → Prop}

theorem findPrev_before (linked : Forest heap kids detached) {parent node : Nat} {up : XmlNode}
    (upLive : heap.cells parent = some up) {list : List Nat} (front : list <:+ kids parent)
    (notHead : list.head? ≠ some node) {rounds : Nat} (enough : list.length < rounds) :
    findPrev heap node rounds list.head? = some (before list node) := by
  induction list generalizing rounds with
  | nil =>
    cases rounds with
    | zero => exact absurd enough (Nat.not_lt_zero _)
    | succ rounds => rfl
  | cons first rest ih =>
    cases rounds with
    | zero => exact absurd enough (Nat.not_lt_zero _)
    | succ rounds =>
      have member : first ∈ kids parent := front.subset mem_cons_self
      obtain ⟨-, below, firstLive, -, next⟩ := linked.member upLive member
      have behind : after (kids parent) first = rest.head? := by
        obtain ⟨front, split⟩ := front
        rw [← split]
        apply after_append
        rw [split]
        exact linked.unique parent
      rw [head?_cons, findPrev, Heap.read, firstLive, bind_eq_bind,
        bind_some, next, behind, before]
      by_cases here : rest.head? = some node
      · rw [if_pos here, if_pos here]
      · rw [if_neg here, if_neg here]
        exact ih ((suffix_cons first rest).trans front) here
          (Nat.lt_of_succ_lt_succ enough)

theorem Linked.outside {unfinished : Nat → Prop} (linked : Linked heap kids detached unfinished)
    {node : Nat} (outside : ∀ other cell, heap.cells other = some cell → node ∉ kids other) :
    Linked heap (fun other => (kids other).erase node)
      (fun other => detached other ∨ other = node) unfinished := by
  have same (other : Nat) (cell : XmlNode) (live : heap.cells other = some cell) :
      (kids other).erase node = kids other :=
    erase_of_not_mem (outside other cell live)
  constructor
  · intro other
    exact (linked.sorted other).sublist erase_sublist
  · intro other cell live
    rw [same other cell live]
    exact linked.child live
  · intro other cell live complete
    rw [same other cell live]
    exact linked.lastchild live complete
  · intro other cell kid live member
    rw [same other cell live] at member ⊢
    exact linked.member live member
  · intro other cell above live parent
    obtain ⟨less, ⟨aboveCell, aboveLive⟩, alone⟩ := linked.parent live parent
    refine ⟨less, ⟨aboveCell, aboveLive⟩, fun notIn => ?_⟩
    rw [same above aboveCell aboveLive] at notIn
    exact Or.inl (alone notIn)
  · intro other cell live
    rw [same other cell live]
    exact linked.attribs live
  · exact linked.sized
  · exact linked.root

structure Unlinked (heap heap1 : NodeHeap) (kids : Nat → List Nat) (detached : Nat → Prop)
    (node : Nat) : Prop where
  fresh : heap1.fresh = heap.fresh
  linked : Forest heap1 (fun other => (kids other).erase node)
    fun other => detached other ∨ other = node
  within : Within heap1 heap
  live : ∀ {other was}, heap.cells other = some was → ∃ now, heap1.cells other = some now

theorem Bypassed.unlinked {heap1 : NodeHeap} {node parent : Nat} {cell up : XmlNode}
    (linked : Forest heap kids detached) (live : heap.cells node = some cell)
    (upLive : heap.cells parent = some up) (member : node ∈ kids parent)
    (bypassed : Bypassed heap heap1 kids node parent cell up) :
    Unlinked heap heap1 kids detached node :=
  { fresh := bypassed.fresh
    linked := linked.bypass live upLive member id bypassed
    within := bypassed.within upLive
    live := bypassed.live }

theorem unlinked_outside (linked : Forest heap kids detached) {node : Nat}
    (outside : ∀ other cell, heap.cells other = some cell → node ∉ kids other) :
    Unlinked heap heap kids detached node :=
  { fresh := rfl
    linked := linked.outside outside
    within := Within.refl heap
    live := fun live => ⟨_, live⟩ }

/-- The stores that lead past `node`, whose neighbours are `prev` and `next`. -/
def bypass (heap : NodeHeap) (parent node : Nat) (prev next : Option Nat) (up : XmlNode) :
    NodeHeap :=
  let heap :=
    match prev with
    | none => heap.modify parent fun up => { up with child := next }
    | some prev => heap.modify prev fun left => { left with next := next }
  if up.lastchild = some node then
    heap.modify parent fun up => { up with lastchild := prev }
  else heap

theorem bypass_bypassed (linked : Forest heap kids detached) {node parent : Nat}
    {cell up : XmlNode} (upLive : heap.cells parent = some up) (member : node ∈ kids parent) :
    Bypassed heap (bypass heap parent node (before (kids parent) node) cell.next up) kids node
      parent cell up := by
  have unique := linked.unique parent
  cases previous : before (kids parent) node with
  | none =>
    have first : up.child = some node := by
      rw [linked.child upLive]
      exact (before_eq_none_iff unique member).mp previous
    constructor
    · rw [bypass]
      split <;> rfl
    · rw [bypass, previous]
      split
      · rename_i last
        rw [Heap.modify_cells, if_pos rfl, Heap.modify_cells, if_pos rfl, upLive]
        rfl
      · rw [Heap.modify_cells, if_pos rfl, upLive]
        rfl
    · intro other different
      rw [bypass, previous]
      split
      · rw [Heap.modify_cells, if_neg different, Heap.modify_cells, if_neg different]
        exact Option.map_id'.symm
      · rw [Heap.modify_cells, if_neg different]
        exact Option.map_id'.symm
  | some prev =>
    obtain ⟨less, left, leftLive, -⟩ := linked.member upLive (before_mem unique previous)
    have notFirst : up.child ≠ some node := by
      rw [linked.child upLive]
      intro first
      rw [(before_eq_none_iff unique member).mpr first] at previous
      cases previous
    have parentKept :
        (heap.modify prev fun left => { left with next := cell.next }).cells parent = some up := by
      rw [Heap.modify_cells, if_neg (Nat.ne_of_lt less)]
      exact upLive
    have elsewhere (other : Nat) :
        (heap.modify prev fun left => { left with next := cell.next }).cells other =
          (heap.cells other).map fun left =>
            if before (kids parent) node = some other then { left with next := cell.next }
            else left := by
      rw [Heap.modify_cells, previous]
      by_cases here : other = prev
      · rw [if_pos here, here]
        simp only [if_true]
      · rw [if_neg here]
        simp only [some_inj, Ne.symm here, if_false, Option.map_id']
    constructor
    · rw [bypass]
      split <;> rfl
    · rw [bypass, previous]
      split
      · rw [Heap.modify_cells, if_pos rfl, parentKept]
        rfl
      · exact parentKept
    · intro other different
      rw [bypass]
      split
      · rw [Heap.modify_cells, if_neg different]
        exact elsewhere other
      · exact elsewhere other

theorem unlink_unlinked (linked : Forest heap kids detached) {node : Nat} {cell : XmlNode}
    (live : heap.cells node = some cell) :
    ∃ heap1, unlink heap node = some heap1 ∧ Unlinked heap heap1 kids detached node := by
  rw [unlink, Heap.read, live, bind_eq_bind, bind_some]
  -- in no chain: its parent is none, or has let go of it
  have outsideAll (alone : ∀ parent, cell.parent = some parent → node ∉ kids parent) :
      ∀ other was, heap.cells other = some was → node ∉ kids other := by
    intro other was wasLive member
    exact alone other (linked.parent_eq wasLive member live) member
  cases named : cell.parent with
  | none =>
    refine ⟨heap, rfl, unlinked_outside linked (outsideAll ?_)⟩
    intro parent impossible
    rw [named] at impossible
    cases impossible
  | some parent =>
    obtain ⟨-, ⟨up, upLive⟩, -⟩ := linked.parent live named
    simp only [Heap.read, upLive, bind_some]
    by_cases member : node ∈ kids parent
    · by_cases first : up.child = some node
      · have head : (kids parent).head? = some node := by
          rw [← linked.child upLive]
          exact first
        have unlinked := (bypass_bypassed linked upLive member).unlinked linked live upLive member
        refine ⟨_, ?_, unlinked⟩
        rw [if_pos first, Heap.write_live upLive, bind_eq_bind, bind_some,
          (before_eq_none_iff (linked.unique parent) member).mpr head]
        simp only [bypass]
        split
        · rename_i last
          have noneAfter : cell.next = none := by
            rw [linked.next_eq upLive member live,
              after_eq_none_iff (linked.unique parent) member, ← linked.lastchild upLive id]
            exact last
          have again : (heap.modify parent fun up => { up with child := cell.next }).cells
              parent = some { up with child := cell.next } := by
            rw [Heap.modify_cells, if_pos rfl, upLive, map_some]
          rw [Heap.write_live again, noneAfter]
        · rfl
      · have notHead : (kids parent).head? ≠ some node := by
          rw [← linked.child upLive]
          exact first
        cases previous : before (kids parent) node with
        | none =>
          exact absurd ((before_eq_none_iff (linked.unique parent) member).mp previous) notHead
        | some prev =>
          have bounded := length_le_of_bounded (linked.unique parent)
            (linked.kids_bounded upLive)
          obtain ⟨less, left, leftLive, -⟩ :=
            linked.member upLive (before_mem (linked.unique parent) previous)
          have unlinked :=
            (bypass_bypassed linked upLive member).unlinked linked live upLive member
          refine ⟨_, ?_, unlinked⟩
          rw [if_neg first, linked.child upLive,
            findPrev_before linked upLive (suffix_refl _) notHead
              (Nat.lt_succ_of_le bounded), bind_eq_bind, bind_some, previous,
            bypass]
          have parentKept :
              (heap.modify prev fun left => { left with next := cell.next }).cells parent =
                some up := by
            rw [Heap.modify_cells, if_neg (Nat.ne_of_lt less)]
            exact upLive
          simp only [Heap.write_live leftLive, bind_eq_bind, bind_some,
            Heap.write_live parentKept]
          split <;> rfl
    · have first : up.child ≠ some node := by
        rw [linked.child upLive]
        exact fun head => member (mem_of_head? head)
      have bounded := length_le_of_bounded (linked.unique parent) (linked.kids_bounded upLive)
      rw [if_neg first, linked.child upLive,
        findPrev_before linked upLive (suffix_refl _)
          (fun head => member (mem_of_head? head)) (Nat.lt_succ_of_le bounded),
        bind_eq_bind, bind_some, before_absent member]
      refine ⟨heap, rfl, unlinked_outside linked (outsideAll ?_)⟩
      intro other same
      rw [named] at same
      cases same
      exact member

theorem Linked.remove (linked : Forest heap kids detached) {node : Nat}
    (childless : kids node = [])
    (outside : ∀ other cell, heap.cells other = some cell → node ∉ kids other)
    (below : ∀ other, detached other → other ≤ node) :
    Forest (heap.remove node) kids fun other => detached other ∧ other ≠ node := by
  have was {other : Nat} {cell : XmlNode} (live : (heap.remove node).cells other = some cell) :
      other ≠ node ∧ heap.cells other = some cell := by
    rw [Heap.remove_cells] at live
    split at live
    · cases live
    · exact ⟨‹_›, live⟩
  have kept {other : Nat} (different : other ≠ node) :
      (heap.remove node).cells other = heap.cells other := by
    rw [Heap.remove_cells, if_neg different]
  constructor
  · exact linked.sorted
  · intro other cell live
    exact linked.child (was live).2
  · intro other cell live complete
    exact linked.lastchild (was live).2 complete
  · intro other cell kid live member
    obtain ⟨less, found, foundLive, parent, next⟩ := linked.member (was live).2 member
    have different : kid ≠ node := by
      rintro rfl
      exact outside other cell (was live).2 member
    exact ⟨less, found, by rw [kept different, foundLive], parent, next⟩
  · intro other cell up live parent
    obtain ⟨different, wasLive⟩ := was live
    obtain ⟨less, ⟨above, aboveLive⟩, alone⟩ := linked.parent wasLive parent
    have upKept : up ≠ node := by
      rintro rfl
      have loose := alone (by rw [childless]; exact not_mem_nil)
      exact absurd (below other loose) (Nat.not_le.mpr less)
    refine ⟨less, ⟨above, by rw [kept upKept, aboveLive]⟩, fun notIn => ?_⟩
    exact ⟨alone notIn, different⟩
  · intro other cell live
    have keys : (kids other).filterMap (attribKey (heap.remove node)) =
        (kids other).filterMap (attribKey heap) := by
      apply filterMap_congr
      intro kid member
      have different : kid ≠ node := by
        rintro rfl
        exact outside other cell (was live).2 member
      rw [attribKey, attribKey, kept different]
    rw [keys]
    exact linked.attribs (was live).2
  · intro other cell data live
    exact linked.sized (was live).2
  · intro other cell live
    exact linked.root (was live).2

structure Freed (heap heap1 : NodeHeap) (kids kids1 : Nat → List Nat) (detached : Nat → Prop)
    (node : Nat) : Prop where
  fresh : heap1.fresh = heap.fresh
  linked : Forest heap1 kids1 fun other => detached other ∧ other ≠ node
  within : Within heap1 heap
  gone : heap1.cells node = none
  earlier : ∀ other was, heap.cells other = some was → other < node →
    kids1 other = (kids other).erase node ∧ ∃ now, heap1.cells other = some now

structure Emptied (heap heap1 : NodeHeap) (kids kids1 : Nat → List Nat) (detached : Nat → Prop)
    (node : Nat) : Prop where
  fresh : heap1.fresh = heap.fresh
  linked : Forest heap1 kids1 detached
  within : Within heap1 heap
  childless : kids1 node = []
  earlier : ∀ other was, heap.cells other = some was → other ≤ node →
    (other ≠ node → kids1 other = kids other) ∧ ∃ now, heap1.cells other = some now

/-- Enough fuel for a node: every address behind it may be entered twice. -/
def FreesWithin (rounds : Nat) : Prop :=
  ∀ (heap : NodeHeap) (kids : Nat → List Nat) (detached : Nat → Prop) (node : Nat)
    (cell : XmlNode), Forest heap kids detached → heap.cells node = some cell →
    (∀ other, detached other → other ≤ node) → 2 * (heap.fresh - node) < rounds →
    ∃ heap1 kids1, free rounds heap node = some heap1 ∧
      Freed heap heap1 kids kids1 detached node

def EmptiesWithin (rounds : Nat) : Prop :=
  ∀ (heap : NodeHeap) (kids : Nat → List Nat) (detached : Nat → Prop) (node : Nat)
    (cell : XmlNode), Forest heap kids detached → heap.cells node = some cell →
    (∀ other, detached other → other ≤ node) →
    (∀ x, (kids node).head? = some x → 2 * (heap.fresh - x) + 1 < rounds) → 0 < rounds →
    ∃ heap1 kids1, freeChildren rounds heap (kids node).head? = some heap1 ∧
      Emptied heap heap1 kids kids1 detached node

theorem free_step {rounds : Nat} (empties : EmptiesWithin rounds) : FreesWithin (rounds + 1) := by
  intro heap kids detached node cell linked live below enough
  obtain ⟨heap1, unlinked, unlinkedSpec⟩ := unlink_unlinked linked live
  obtain ⟨now, nowLive⟩ := unlinkedSpec.live live
  have selfFree : node ∉ kids node := by
    intro member
    exact absurd (linked.member live member).1 (Nat.lt_irrefl _)
  have sameKids : (kids node).erase node = kids node := erase_of_not_mem selfFree
  have bound := Heap.lt_fresh live
  have below1 (other : Nat) (loose : detached other ∨ other = node) : other ≤ node := by
    rcases loose with loose | same
    · exact below other loose
    · exact Nat.le_of_eq same
  have enough1 (x : Nat) (head : ((kids node).erase node).head? = some x) :
      2 * (heap1.fresh - x) + 1 < rounds := by
    rw [sameKids] at head
    have less := (linked.member live (mem_of_head? head)).1
    rw [unlinkedSpec.fresh]
    omega
  obtain ⟨heap2, kids2, emptied, emptiedSpec⟩ :=
    empties _ _ _ _ _ unlinkedSpec.linked nowLive below1 enough1 (by omega)
  obtain ⟨-, last, lastLive⟩ := emptiedSpec.earlier node now nowLive (Nat.le_refl _)
  have outside (other : Nat) (was : XmlNode) (wasLive : heap2.cells other = some was) :
      node ∉ kids2 other := by
    intro member
    have less := (emptiedSpec.linked.member wasLive member).1
    obtain ⟨middle, middleLive, -⟩ := emptiedSpec.within other was wasLive
    obtain ⟨kidsEq, -⟩ := emptiedSpec.earlier other middle middleLive (Nat.le_of_lt less)
    rw [kidsEq (Nat.ne_of_lt less)] at member
    exact List.Nodup.not_mem_erase (linked.unique other) member
  have removed := emptiedSpec.linked.remove emptiedSpec.childless outside below1
  refine ⟨heap2.remove node, kids2, ?_, ?_⟩
  · simp only [free, unlinked, bind_eq_bind, bind_some, Heap.read, nowLive,
      unlinkedSpec.linked.child nowLive, emptied, Heap.dispose_live lastLive]
  · constructor
    · exact emptiedSpec.fresh.trans unlinkedSpec.fresh
    · apply removed.mono
      rintro other ⟨loose | same, different⟩
      · exact ⟨loose, different⟩
      · exact absurd same different
    · intro other found foundLive
      rw [Heap.remove_cells] at foundLive
      split at foundLive
      · cases foundLive
      · exact emptiedSpec.within.trans unlinkedSpec.within other found foundLive
    · rw [Heap.remove_cells, if_pos rfl]
    · intro other was wasLive less
      obtain ⟨middle, middleLive⟩ := unlinkedSpec.live wasLive
      obtain ⟨kidsEq, found, foundLive⟩ :=
        emptiedSpec.earlier other middle middleLive (Nat.le_of_lt less)
      refine ⟨kidsEq (Nat.ne_of_lt less), found, ?_⟩
      rw [Heap.remove_cells, if_neg (Nat.ne_of_lt less), foundLive]

theorem freeChildren_step {rounds : Nat} (frees : FreesWithin rounds)
    (empties : EmptiesWithin rounds) : EmptiesWithin (rounds + 1) := by
  intro heap kids detached node cell linked live below enough positive
  cases list : kids node with
  | nil =>
    refine ⟨heap, kids, rfl, rfl, linked, Within.refl heap, list, ?_⟩
    intro other was wasLive _
    exact ⟨fun _ => rfl, was, wasLive⟩
  | cons x rest =>
    rw [list] at enough
    have bound := enough x rfl
    have member : x ∈ kids node := by
      rw [list]
      exact mem_cons_self
    obtain ⟨less, below', xLive, -, next⟩ := linked.member live member
    have behind : below'.next = rest.head? := by
      rw [next, list]
      exact if_pos rfl
    obtain ⟨heap1, kids1, freed, freedSpec⟩ := frees _ _ _ _ _ linked xLive
      (fun other loose => Nat.le_trans (below other loose) (Nat.le_of_lt less))
      (by omega)
    obtain ⟨kidsEq, now, nowLive⟩ := freedSpec.earlier node cell live less
    have remaining : kids1 node = rest := by
      rw [kidsEq, list]
      exact erase_cons_head x rest
    have enough1 (y : Nat) (head : (kids1 node).head? = some y) :
        2 * (heap1.fresh - y) + 1 < rounds := by
      rw [remaining] at head
      have order : x < y := by
        have sorted := linked.sorted node
        rw [list] at sorted
        exact (pairwise_cons.mp sorted).1 y (mem_of_head? head)
      have bounded : y < heap.fresh := by
        apply linked.kids_bounded live
        rw [list]
        exact mem_cons_of_mem _ (mem_of_head? head)
      rw [freedSpec.fresh]
      omega
    obtain ⟨heap2, kids2, emptied, emptiedSpec⟩ := empties _ _ _ _ _ freedSpec.linked nowLive
      (fun other loose => below other loose.1) enough1 (by omega)
    rw [remaining] at emptied
    refine ⟨heap2, kids2, ?_, ?_⟩
    · simp only [head?_cons, freeChildren, Heap.read, xLive, bind_eq_bind,
        bind_some, freed, behind, emptied]
    · constructor
      · exact emptiedSpec.fresh.trans freedSpec.fresh
      · exact emptiedSpec.linked.mono fun other loose => loose.1
      · exact emptiedSpec.within.trans freedSpec.within
      · exact emptiedSpec.childless
      · intro other was wasLive order
        obtain ⟨kidsFreed, middle, middleLive⟩ :=
          freedSpec.earlier other was wasLive (Nat.lt_of_le_of_lt order less)
        obtain ⟨kidsEmptied, found⟩ := emptiedSpec.earlier other middle middleLive order
        refine ⟨fun different => ?_, found⟩
        rw [kidsEmptied different, kidsFreed]
        exact linked.erase_other live member wasLive different

theorem frees_empties (rounds : Nat) : FreesWithin rounds ∧ EmptiesWithin rounds := by
  induction rounds with
  | zero =>
    constructor
    · intro heap kids detached node cell linked live below enough
      exact absurd enough (Nat.not_lt_zero _)
    · intro heap kids detached node cell linked live below enough positive
      exact absurd positive (Nat.lt_irrefl 0)
  | succ rounds ih =>
    obtain ⟨frees, empties⟩ := ih
    exact ⟨free_step empties, freeChildren_step frees empties⟩

theorem xmlnodeFree_freed (linked : Forest heap kids detached) {node : Nat} {cell : XmlNode}
    (live : heap.cells node = some cell) (below : ∀ other, detached other → other ≤ node) :
    ∃ heap1 kids1, xmlnodeFree heap node = some heap1 ∧
      Freed heap heap1 kids kids1 detached node :=
  (frees_empties (2 * heap.fresh + 1)).1 heap kids detached node cell linked live below (by omega)

end free

/-! ### Removing attributes -/

abbrev Tree (heap : NodeHeap) (kids : Nat → List Nat) : Prop := Forest heap kids fun _ => False

section attributes

variable {heap : NodeHeap} {kids : Nat → List Nat}

/-- What removing children of `node` leaves. -/
structure Trimmed (heap heap1 : NodeHeap) (kids1 : Nat → List Nat) (node : Nat) : Prop where
  tree : Tree heap1 kids1
  within : Within heap1 heap
  live : ∃ cell, heap1.cells node = some cell
  fresh : heap1.fresh = heap.fresh

theorem Trimmed.trans {heap1 heap2 : NodeHeap} {kids1 kids2 : Nat → List Nat} {node : Nat}
    (later : Trimmed heap1 heap2 kids2 node) (earlier : Trimmed heap heap1 kids1 node) :
    Trimmed heap heap2 kids2 node :=
  { tree := later.tree
    within := later.within.trans earlier.within
    live := later.live
    fresh := later.fresh.trans earlier.fresh }

theorem free_kid (tree : Tree heap kids) {node kid : Nat} {up : XmlNode}
    (upLive : heap.cells node = some up) (member : kid ∈ kids node) :
    ∃ heap1 kids1, xmlnodeFree heap kid = some heap1 ∧ Trimmed heap heap1 kids1 node ∧
      kids1 node = (kids node).erase kid := by
  obtain ⟨less, cell, live, -⟩ := tree.member upLive member
  obtain ⟨heap1, kids1, freed, spec⟩ :=
    xmlnodeFree_freed tree live fun other impossible => impossible.elim
  obtain ⟨kidsEq, now, nowLive⟩ := spec.earlier node up upLive less
  exact ⟨heap1, kids1, freed,
    ⟨spec.linked.mono fun _ loose => loose.1, spec.within, ⟨now, nowLive⟩, spec.fresh⟩, kidsEq⟩

theorem free_bypassed (tree : Tree heap kids) {node kid : Nat} {up cell : XmlNode}
    (upLive : heap.cells node = some up) (member : kid ∈ kids node)
    (live : heap.cells kid = some cell) :
    ∃ heap1 kids1,
      xmlnodeFree (bypass heap node kid (before (kids node) kid) cell.next up) kid =
        some heap1 ∧ Trimmed heap heap1 kids1 node ∧ kids1 node = (kids node).erase kid := by
  have unlinked := (bypass_bypassed tree upLive member).unlinked tree live upLive member
  obtain ⟨less, -⟩ := tree.member upLive member
  obtain ⟨now, nowLive⟩ := unlinked.live live
  obtain ⟨upNow, upNowLive⟩ := unlinked.live upLive
  obtain ⟨heap1, kids1, freed, spec⟩ := xmlnodeFree_freed unlinked.linked nowLive (by
    rintro other (impossible | rfl)
    · exact impossible.elim
    · exact Nat.le_refl _)
  obtain ⟨kidsEq, last, lastLive⟩ := spec.earlier node upNow upNowLive less
  refine ⟨heap1, kids1, freed, ⟨?_, spec.within.trans unlinked.within, ⟨last, lastLive⟩,
    spec.fresh.trans unlinked.fresh⟩, ?_⟩
  · apply spec.linked.mono
    rintro other ⟨impossible | same, different⟩
    · exact impossible
    · exact different same
  · rw [kidsEq]
    exact erase_of_not_mem (List.Nodup.not_mem_erase (tree.unique node))

theorem next_of_suffix (tree : Tree heap kids) {node first : Nat} {up cell : XmlNode}
    {front rest : List Nat} (split : kids node = front ++ first :: rest)
    (upLive : heap.cells node = some up) (live : heap.cells first = some cell) :
    cell.next = rest.head? := by
  have member : first ∈ kids node := by
    rw [split]
    exact mem_append_right _ mem_cons_self
  have unique := tree.unique node
  rw [tree.next_eq upLive member live]
  rw [split] at unique ⊢
  exact after_append unique

theorem removeAttribLoop_trimmed (attr : Str) {node : Nat} {up : XmlNode} (list : List Nat)
    {rounds : Nat} (enough : list.length < rounds) (tree : Tree heap kids)
    (upLive : heap.cells node = some up) (behind : list <:+ kids node) :
    ∃ heap1 kids1, removeAttribLoop node attr rounds heap list.head? list.head? = some heap1 ∧
      Trimmed heap heap1 kids1 node := by
  induction list generalizing heap kids up rounds with
  | nil =>
    cases rounds with
    | zero => exact absurd enough (Nat.not_lt_zero _)
    | succ rounds =>
      exact ⟨heap, kids, rfl, tree, Within.refl heap, ⟨up, upLive⟩, rfl⟩
  | cons first rest ih =>
    cases rounds with
    | zero => exact absurd enough (Nat.not_lt_zero _)
    | succ rounds =>
      have shorter : rest.length < rounds := Nat.lt_of_succ_lt_succ enough
      have member : first ∈ kids node := behind.subset mem_cons_self
      obtain ⟨-, cell, live, -⟩ := tree.member upLive member
      obtain ⟨front, split⟩ := behind
      have next := next_of_suffix tree split.symm upLive live
      rw [head?_cons, removeAttribLoop]
      simp only [Heap.read, live, upLive, bind_eq_bind, bind_some]
      by_cases found : cell.type = .attrib ∧ cell.name = some attr
      · rw [if_pos found]
        -- `sibling` is the node itself, so neither store changes anything
        have sameLast (ends : up.lastchild = some first) :
            heap.write node (fun up => { up with lastchild := some first }) = some heap := by
          rw [Heap.write_live upLive, Heap.modify_same]
          intro cell cellLive
          rw [upLive] at cellLive
          cases cellLive
          rw [← ends]
        have sameNext : heap.write first (fun left => { left with next := cell.next }) =
            some heap := by
          rw [Heap.write_live live, Heap.modify_same]
          intro other otherLive
          rw [live] at otherLive
          cases otherLive
          rfl
        obtain ⟨heap1, kids1, freed, trimmed, kidsEq⟩ := free_kid tree upLive member
        obtain ⟨now, nowLive⟩ := trimmed.live
        have remaining : rest <:+ kids1 node := by
          rw [kidsEq, ← split]
          have absent : first ∉ front := by
            have unique := tree.unique node
            rw [← split, nodup_append] at unique
            intro inside
            exact unique.2.2 first inside first mem_cons_self rfl
          rw [erase_append_right _ absent, erase_cons_head]
          exact suffix_append _ _
        obtain ⟨heap2, kids2, looped, last⟩ := ih shorter trimmed.tree nowLive remaining
        refine ⟨heap2, kids2, ?_, last.trans trimmed⟩
        rw [next] at sameNext
        split
        · rename_i ends
          simp only [sameLast ends, sameNext, live, bind_some, freed, next, looped]
        · simp only [sameNext, live, bind_some, freed, next, looped]
      · rw [if_neg found, next]
        exact ih shorter tree upLive ⟨front ++ [first], by rw [← split]; simp⟩

theorem removeAttrib_trimmed (tree : Tree heap kids) {node : Nat} {up : XmlNode}
    (upLive : heap.cells node = some up) (attr : Option Str) :
    ∃ heap1 kids1, xmlnodeRemoveAttrib heap (some node) attr = some heap1 ∧
      Trimmed heap heap1 kids1 node := by
  have untouched : Trimmed heap heap kids node :=
    ⟨tree, Within.refl heap, ⟨up, upLive⟩, rfl⟩
  cases attr with
  | none => exact ⟨heap, kids, rfl, untouched⟩
  | some attr =>
    have bounded := length_le_of_bounded (tree.unique node) (tree.kids_bounded upLive)
    simp only [xmlnodeRemoveAttrib, Heap.read, upLive, bind_eq_bind, bind_some,
      tree.child upLive]
    cases list : kids node with
    | nil => exact ⟨heap, kids, rfl, untouched⟩
    | cons first rest =>
      rw [list, length_cons] at bounded
      have member : first ∈ kids node := by
        rw [list]
        exact mem_cons_self
      obtain ⟨-, cell, live, -⟩ := tree.member upLive member
      have split : kids node = [] ++ first :: rest := list
      have next := next_of_suffix tree split upLive live
      rw [head?_cons, removeAttribLoop]
      simp only [Heap.read, live, upLive, bind_eq_bind, bind_some]
      by_cases found : cell.type = .attrib ∧ cell.name = some attr
      · rw [if_pos found]
        have noneBefore : before (kids node) first = none := by
          rw [before_eq_none_iff (tree.unique node) member, list]
          rfl
        obtain ⟨heap1, kids1, freed, trimmed, kidsEq⟩ := free_bypassed tree upLive member live
        obtain ⟨now, nowLive⟩ := trimmed.live
        have remaining : kids1 node = rest := by
          rw [kidsEq, list]
          exact erase_cons_head first rest
        obtain ⟨heap2, kids2, looped, last⟩ :=
          removeAttribLoop_trimmed attr rest (Nat.lt_of_succ_le bounded) trimmed.tree nowLive
            (remaining ▸ suffix_refl _)
        have child : now.child = rest.head? := by
          rw [trimmed.tree.child nowLive, remaining]
        refine ⟨heap2, kids2, ?_, last.trans trimmed⟩
        rw [noneBefore] at freed
        simp only [bypass, Heap.modify_modify] at freed
        split at freed
        · rename_i ends
          have again : (heap.modify node fun up => { up with lastchild := none }).cells node =
              some { up with lastchild := none } := by
            rw [Heap.modify_cells, if_pos rfl, upLive, map_some]
          simp only [if_pos ends, Heap.write_live upLive, bind_some,
            Heap.write_live again, Heap.modify_modify, freed, nowLive, child, looped]
        · rename_i ends
          simp only [if_neg ends, Heap.write_live upLive, bind_some, freed, nowLive,
            child, looped]
      · rw [if_neg found, next]
        exact removeAttribLoop_trimmed attr rest (Nat.lt_of_succ_le bounded) tree upLive
          ⟨[first], list.symm⟩

theorem attribKey_iff {node : Nat} {cell : XmlNode} (live : heap.cells node = some cell)
    (attr : Str) (xmlns : Option Str) :
    cell.type = .attrib ∧ some attr = cell.name ∧ xmlns = cell.xmlns ↔
      attribKey heap node = some (some attr, xmlns) := by
  rw [attribKey, live, bind_some]
  split
  · rename_i attrib
    rw [some_inj, Prod.mk.injEq]
    constructor
    · rintro ⟨-, name, ns⟩
      exact ⟨name.symm, ns.symm⟩
    · rintro ⟨name, ns⟩
      exact ⟨attrib, name.symm, ns.symm⟩
  · rename_i other
    constructor
    · rintro ⟨attrib, -⟩
      exact absurd attrib other
    · intro impossible
      cases impossible

abbrev attribKeys (heap : NodeHeap) (list : List Nat) : List (Option Str × Option Str) :=
  list.filterMap (attribKey heap)

theorem Trimmed.attribKeys {heap1 : NodeHeap} {kids1 : Nat → List Nat} {node : Nat}
    (trimmed : Trimmed heap heap1 kids1 node) :
    attribKeys heap1 (kids1 node) = attribKeys heap (kids1 node) := by
  apply filterMap_congr
  intro kid member
  obtain ⟨cell, live⟩ := trimmed.live
  obtain ⟨-, below, kidLive, -⟩ := trimmed.tree.member live member
  exact trimmed.within.attribKey kidLive

theorem before_of_split {list front rest : List Nat} {node : Nat} (unique : list.Nodup)
    (split : list = front ++ node :: rest) : before list node = front.getLast? := by
  cases last : front.getLast? with
  | none =>
    rw [getLast?_eq_none_iff] at last
    rw [before_eq_none_iff unique (by rw [split]; simp), split, last]
    rfl
  | some prev =>
    obtain ⟨start, rfl⟩ := getLast?_eq_some_iff.mp last
    rw [before_iff_after unique]
    rw [split, append_assoc, singleton_append] at unique ⊢
    exact after_append unique

theorem removeAttribWithNamespaceLoop_trimmed (attr : Str) (xmlns : Option Str)
    (tree : Tree heap kids) {node : Nat} {up : XmlNode} (upLive : heap.cells node = some up)
    (front list : List Nat) (split : kids node = front ++ list) {rounds : Nat}
    (enough : list.length < rounds) (absent : (some attr, xmlns) ∉ attribKeys heap front) :
    ∃ heap1 kids1,
      removeAttribWithNamespaceLoop node attr xmlns rounds heap list.head? front.getLast? =
        some heap1 ∧
      Trimmed heap heap1 kids1 node ∧ (some attr, xmlns) ∉ attribKeys heap1 (kids1 node) := by
  induction list generalizing front rounds with
  | nil =>
    cases rounds with
    | zero => exact absurd enough (Nat.not_lt_zero _)
    | succ rounds =>
      rw [append_nil] at split
      exact ⟨heap, kids, rfl, ⟨tree, Within.refl heap, ⟨up, upLive⟩, rfl⟩, split ▸ absent⟩
  | cons first rest ih =>
    cases rounds with
    | zero => exact absurd enough (Nat.not_lt_zero _)
    | succ rounds =>
      have member : first ∈ kids node := by
        rw [split]
        exact mem_append_right _ mem_cons_self
      obtain ⟨less, cell, live, -⟩ := tree.member upLive member
      have previous := before_of_split (tree.unique node) split
      rw [head?_cons, removeAttribWithNamespaceLoop]
      simp only [Heap.read, live, bind_eq_bind, bind_some, attribKey_iff live]
      by_cases found : attribKey heap first = some (some attr, xmlns)
      · obtain ⟨heap1, kids1, freed, trimmed, kidsEq⟩ := free_bypassed tree upLive member live
        refine ⟨heap1, kids1, ?_, trimmed, ?_⟩
        · rw [if_pos found]
          rw [previous] at freed
          cases sibling : front.getLast? with
          | none =>
            rw [sibling] at freed
            simp only [bypass] at freed
            have kept : (heap.modify node fun up => { up with child := cell.next }).cells
                node = some { up with child := cell.next } := by
              rw [Heap.modify_cells, if_pos rfl, upLive, map_some]
            simp only [Heap.write_live upLive, bind_some, kept]
            split
            · rename_i ends
              rw [if_pos ends] at freed
              rw [Heap.write_live kept, bind_some]
              exact freed
            · rename_i ends
              rw [if_neg ends] at freed
              exact freed
          | some prev =>
            rw [sibling] at freed
            simp only [bypass] at freed
            obtain ⟨lessPrev, left, leftLive, -⟩ := tree.member upLive
              (before_mem (tree.unique node) (previous.trans sibling))
            have kept : (heap.modify prev fun left => { left with next := cell.next }).cells
                node = some up := by
              rw [Heap.modify_cells, if_neg (Nat.ne_of_lt lessPrev), upLive]
            simp only [Heap.write_live leftLive, bind_some, kept]
            split
            · rename_i ends
              rw [if_pos ends] at freed
              rw [Heap.write_live kept, bind_some]
              exact freed
            · rename_i ends
              rw [if_neg ends] at freed
              exact freed
        · rw [trimmed.attribKeys, kidsEq]
          have keys := tree.attribs upLive
          have notFront : first ∉ front := by
            intro inside
            exact absent (mem_filterMap.mpr ⟨first, inside, found⟩)
          rw [split, erase_append_right _ notFront, erase_cons_head]
          rw [split, filterMap_append, filterMap_cons_some found,
            nodup_append] at keys
          rw [attribKeys, filterMap_append, mem_append, not_or]
          exact ⟨absent, (nodup_cons.mp keys.2.1).1⟩
      · rw [if_neg found, next_of_suffix tree split upLive live]
        have extended : (some attr, xmlns) ∉ attribKeys heap (front ++ [first]) := by
          rw [attribKeys, filterMap_append, mem_append, not_or]
          refine ⟨absent, ?_⟩
          intro inside
          obtain ⟨kid, kidMember, key⟩ := mem_filterMap.mp inside
          rw [mem_singleton.mp kidMember] at key
          exact found key
        have result := ih (front ++ [first]) (by rw [split]; simp)
          (Nat.lt_of_succ_lt_succ enough) extended
        rw [getLast?_concat] at result
        exact result

theorem removeAttribWithNamespace_trimmed (tree : Tree heap kids) {node : Nat} {up : XmlNode}
    (upLive : heap.cells node = some up) (attr : Str) (xmlns : Option Str) :
    ∃ heap1 kids1,
      xmlnodeRemoveAttribWithNamespace heap (some node) (some attr) xmlns = some heap1 ∧
      Trimmed heap heap1 kids1 node ∧ (some attr, xmlns) ∉ attribKeys heap1 (kids1 node) := by
  have bounded := length_le_of_bounded (tree.unique node) (tree.kids_bounded upLive)
  simp only [xmlnodeRemoveAttribWithNamespace, Heap.read, upLive, bind_eq_bind,
    bind_some, tree.child upLive]
  exact removeAttribWithNamespaceLoop_trimmed attr xmlns tree upLive [] (kids node) rfl
    (Nat.lt_succ_of_le bounded) not_mem_nil

end attributes

/-! ### Adding nodes -/

section insert

variable {heap : NodeHeap} {kids : Nat → List Nat} {unfinished : Nat → Prop}

theorem Linked.alloc (linked : Linked heap kids (fun _ => False) unfinished) {cell : XmlNode}
    (bare : cell.parent = none ∧ cell.child = none ∧ cell.lastchild = none ∧ cell.next = none)
    (sized : ∀ data, cell.data = some data → cell.dataSz ≠ 0 →
      cell.dataSz % 2 ^ 32 ≤ data.length) :
    Linked (heap.alloc cell) (Function.update kids heap.fresh []) (fun _ => False)
      unfinished := by
  have was {other : Nat} {found : XmlNode} (different : other ≠ heap.fresh)
      (live : (heap.alloc cell).cells other = some found) : heap.cells other = some found := by
    rw [Heap.alloc_cells, if_neg different] at live
    exact live
  have kept {other : Nat} {found : XmlNode} (live : heap.cells other = some found) :
      (heap.alloc cell).cells other = some found := by
    rw [Heap.alloc_cells, if_neg (Nat.ne_of_lt (Heap.lt_fresh live)), live]
  have new {found : XmlNode} (live : (heap.alloc cell).cells heap.fresh = some found) :
      found = cell := by
    rw [Heap.alloc_cells, if_pos rfl] at live
    exact (Option.some.inj live).symm
  have old (other : Nat) (different : other ≠ heap.fresh) :
      Function.update kids heap.fresh [] other = kids other :=
    Function.update_of_ne different _ _
  have none : Function.update kids heap.fresh [] heap.fresh = [] := Function.update_self _ _ _
  constructor
  · intro other
    by_cases same : other = heap.fresh
    · rw [same, none]
      exact List.Pairwise.nil
    · rw [old other same]
      exact linked.sorted other
  · intro other found live
    by_cases same : other = heap.fresh
    · subst same
      rw [none, new live]
      exact bare.2.1
    · rw [old other same]
      exact linked.child (was same live)
  · intro other found live complete
    by_cases same : other = heap.fresh
    · subst same
      rw [none, new live]
      exact bare.2.2.1
    · rw [old other same]
      exact linked.lastchild (was same live) complete
  · intro other found kid live member
    by_cases same : other = heap.fresh
    · subst same
      rw [none] at member
      cases member
    · rw [old other same] at member ⊢
      obtain ⟨less, below, belowLive, links⟩ := linked.member (was same live) member
      exact ⟨less, below, kept belowLive, links⟩
  · intro other found above live parent
    by_cases same : other = heap.fresh
    · subst same
      rw [new live, bare.1] at parent
      cases parent
    · obtain ⟨less, ⟨aboveCell, aboveLive⟩, inside⟩ := linked.parent (was same live) parent
      rw [old above (Nat.ne_of_lt (Heap.lt_fresh aboveLive))]
      exact ⟨less, ⟨aboveCell, kept aboveLive⟩, inside⟩
  · intro other found live
    by_cases same : other = heap.fresh
    · subst same
      rw [none]
      exact nodup_nil
    · rw [old other same]
      have keys : (kids other).filterMap (attribKey (heap.alloc cell)) =
          (kids other).filterMap (attribKey heap) := by
        apply filterMap_congr
        intro kid member
        obtain ⟨-, below, belowLive, -⟩ := linked.member (was same live) member
        rw [attribKey, attribKey, kept belowLive, belowLive]
      rw [keys]
      exact linked.attribs (was same live)
  · intro other found data live hasData size
    by_cases same : other = heap.fresh
    · subst same
      rw [new live] at hasData size ⊢
      exact sized data hasData size
    · exact linked.sized (was same live) hasData size
  · intro other found live noParent
    by_cases same : other = heap.fresh
    · subst same
      rw [new live]
      exact bare.2.2.2
    · exact linked.root (was same live) noParent

/-- `heap1` has `kid` behind the last child of `parent`. -/
structure Attached (heap heap1 : NodeHeap) (kids : Nat → List Nat) (parent kid : Nat)
    (up cell : XmlNode) (last : Option Nat) : Prop where
  fresh : heap1.fresh = heap.fresh
  atParent : heap1.cells parent = some { up with
    child := if up.child = none then some kid else up.child
    lastchild := last }
  atKid : heap1.cells kid = some { cell with parent := some parent }
  elsewhere : ∀ other, other ≠ parent → other ≠ kid →
    heap1.cells other = (heap.cells other).map fun left =>
      if (kids parent).getLast? = some other then { left with next := some kid } else left

section attach

variable {heap1 : NodeHeap} {parent kid : Nat} {up cell : XmlNode} {last : Option Nat}
  (upLive : heap.cells parent = some up) (live : heap.cells kid = some cell)
  (different : parent ≠ kid) (attached : Attached heap heap1 kids parent kid up cell last)

include upLive live attached

theorem Attached.content (other : Nat) :
    (heap1.cells other).map XmlNode.content = (heap.cells other).map XmlNode.content := by
  by_cases atParent : other = parent
  · rw [atParent, attached.atParent, upLive]
    rfl
  · by_cases atKid : other = kid
    · rw [atKid, attached.atKid, live]
      rfl
    · rw [attached.elsewhere other atParent atKid, Option.map_map]
      congr 1
      funext left
      simp only [Function.comp]
      split <;> rfl

theorem Attached.was {other : Nat} {now : XmlNode} (nowLive : heap1.cells other = some now) :
    ∃ found, heap.cells other = some found ∧ now.content = found.content := by
  have same := attached.content upLive live other
  rw [nowLive, map_some] at same
  obtain ⟨found, foundLive, content⟩ := map_eq_some_iff.mp same.symm
  exact ⟨found, foundLive, content.symm⟩

theorem Attached.attribKey (other : Nat) : attribKey heap1 other = attribKey heap other := by
  have same := attached.content upLive live other
  cases found : heap1.cells other with
  | none =>
    rw [found, map_none] at same
    rw [Xml.attribKey, Xml.attribKey, found, map_eq_none_iff.mp same.symm]
  | some now =>
    obtain ⟨was, wasLive, content⟩ := attached.was upLive live found
    exact attribKey_of_content found wasLive content

end attach

theorem Linked.attach {heap1 : NodeHeap} {parent kid : Nat} {up cell : XmlNode}
    {last : Option Nat} (linked : Linked heap kids (fun _ => False) unfinished)
    (upLive : heap.cells parent = some up) (live : heap.cells kid = some cell)
    (root : cell.parent = none) (ends : cell.next = none) (less : parent < kid)
    (behind : ∀ other ∈ kids parent, other < kid)
    (newKey : ∀ key, attribKey heap kid = some key → key ∉ attribKeys heap (kids parent))
    (attached : Attached heap heap1 kids parent kid up cell last)
    (closed : ¬unfinished parent → last = some kid) :
    Linked heap1 (Function.update kids parent (kids parent ++ [kid])) (fun _ => False)
      unfinished := by
  have unique := linked.unique parent
  have fresh : kid ∉ kids parent := fun member => Nat.lt_irrefl _ (behind kid member)
  have atParent : Function.update kids parent (kids parent ++ [kid]) parent =
      kids parent ++ [kid] := Function.update_self _ _ _
  have atOther (other : Nat) (different : other ≠ parent) :
      Function.update kids parent (kids parent ++ [kid]) other = kids other :=
    Function.update_of_ne different _ _
  have noParent (other : Nat) (found : XmlNode) (foundLive : heap.cells other = some found) :
      kid ∉ kids other := by
    intro member
    have named := linked.parent_eq foundLive member live
    rw [root] at named
    cases named
  have different : parent ≠ kid := Nat.ne_of_lt less
  have keys : Xml.attribKey heap1 = Xml.attribKey heap := funext (attached.attribKey upLive live)
  have nowLive {other : Nat} {found : XmlNode} (foundLive : heap.cells other = some found) :
      ∃ now, heap1.cells other = some now := by
    have same := attached.content upLive live other
    rw [foundLive, map_some] at same
    obtain ⟨now, nowLive, -⟩ := map_eq_some_iff.mp same
    exact ⟨now, nowLive⟩
  -- the links of a node that is neither the parent nor the new child
  have beside {other : Nat} {now : XmlNode} (notParent : other ≠ parent) (notKid : other ≠ kid)
      (live1 : heap1.cells other = some now) :
      ∃ was, heap.cells other = some was ∧ now.child = was.child ∧
        now.lastchild = was.lastchild ∧ now.parent = was.parent := by
    rw [attached.elsewhere other notParent notKid] at live1
    obtain ⟨was, wasLive, rfl⟩ := map_eq_some_iff.mp live1
    refine ⟨was, wasLive, ?_⟩
    split <;> exact ⟨rfl, rfl, rfl⟩
  constructor
  · intro other
    by_cases same : other = parent
    · rw [same, atParent, pairwise_append]
      refine ⟨linked.sorted parent, pairwise_singleton _ _, ?_⟩
      intro first member second isKid
      rw [mem_singleton.mp isKid]
      exact behind first member
    · rw [atOther other same]
      exact linked.sorted other
  · intro other now live1
    by_cases same : other = parent
    · rw [same, attached.atParent] at live1
      cases live1
      rw [same, atParent, head?_append, linked.child upLive]
      cases (kids parent).head? <;> rfl
    · rw [atOther other same]
      by_cases isKid : other = kid
      · rw [isKid, attached.atKid] at live1
        cases live1
        have child := linked.child live
        rw [isKid]
        exact child
      · obtain ⟨was, wasLive, child, -⟩ := beside same isKid live1
        rw [child]
        exact linked.child wasLive
  · intro other now live1 complete
    by_cases same : other = parent
    · rw [same, attached.atParent] at live1
      cases live1
      rw [same, atParent, getLast?_concat]
      exact closed (same ▸ complete)
    · rw [atOther other same]
      by_cases isKid : other = kid
      · rw [isKid, attached.atKid] at live1
        cases live1
        have lastchild := linked.lastchild live (isKid ▸ complete)
        rw [isKid]
        exact lastchild
      · obtain ⟨was, wasLive, -, lastchild, -⟩ := beside same isKid live1
        rw [lastchild]
        exact linked.lastchild wasLive complete
  · intro other now below live1 member
    obtain ⟨was, wasLive, -⟩ := attached.was upLive live live1
    by_cases same : other = parent
    · subst same
      rw [atParent] at member ⊢
      rcases mem_append.mp member with inside | isKid
      · obtain ⟨order, found, foundLive, parentEq, nextEq⟩ := linked.member upLive inside
        have notKid : below ≠ kid := Nat.ne_of_lt (behind below inside)
        refine ⟨order, _, by rw [attached.elsewhere below (Nat.ne_of_gt order) notKid, foundLive,
          map_some], ?_, ?_⟩
        · split <;> exact parentEq
        · rw [after_concat fresh unique notKid]
          split
          · rfl
          · exact nextEq
      · rw [mem_singleton.mp isKid]
        refine ⟨less, _, attached.atKid, rfl, ?_⟩
        rw [after_concat_self fresh unique]
        exact ends
    · rw [atOther other same] at member ⊢
      obtain ⟨order, found, foundLive, parentEq, nextEq⟩ := linked.member wasLive member
      refine ⟨order, ?_⟩
      have notKid : below ≠ kid := by
        rintro rfl
        exact noParent other was wasLive member
      by_cases isParent : below = parent
      · subst isParent
        rw [upLive] at foundLive
        cases foundLive
        exact ⟨_, attached.atParent, parentEq, nextEq⟩
      · refine ⟨_, by rw [attached.elsewhere below isParent notKid, foundLive,
          map_some], ?_, ?_⟩
        · split <;> exact parentEq
        · rw [if_neg]
          · exact nextEq
          · intro atEnd
            exact linked.not_kid upLive (mem_of_getLast? atEnd) wasLive same member
  · intro other now above live1 named
    by_cases isKid : other = kid
    · rw [isKid, attached.atKid] at live1
      cases live1
      cases named
      refine ⟨isKid ▸ less, ⟨_, attached.atParent⟩, fun notIn => ?_⟩
      rw [atParent] at notIn
      exact notIn (mem_append_right _ (mem_singleton.mpr isKid))
    · have old : ∃ was, heap.cells other = some was ∧ was.parent = some above := by
        by_cases same : other = parent
        · rw [same, attached.atParent] at live1
          cases live1
          exact ⟨up, same ▸ upLive, named⟩
        · obtain ⟨was, wasLive, -, -, parentEq⟩ := beside same isKid live1
          exact ⟨was, wasLive, parentEq ▸ named⟩
      obtain ⟨was, wasLive, wasNamed⟩ := old
      obtain ⟨order, ⟨aboveCell, aboveLive⟩, inside⟩ := linked.parent wasLive wasNamed
      refine ⟨order, nowLive aboveLive, fun notIn => inside fun member => notIn ?_⟩
      by_cases same : above = parent
      · rw [same, atParent]
        exact mem_append_left _ (same ▸ member)
      · rw [atOther above same]
        exact member
  · intro other now live1
    rw [keys]
    by_cases same : other = parent
    · rw [same, atParent, filterMap_append, nodup_append]
      refine ⟨linked.attribs upLive, ?_, ?_⟩
      · cases key : attribKey heap kid with
        | none =>
          rw [filterMap_cons_none key]
          exact nodup_nil
        | some key' =>
          rw [filterMap_cons_some key]
          exact nodup_singleton _
      · rintro first firstMember second secondMember rfl
        obtain ⟨found, isKid, key⟩ := mem_filterMap.mp secondMember
        rw [mem_singleton.mp isKid] at key
        exact newKey first key firstMember
    · obtain ⟨was, wasLive, -⟩ := attached.was upLive live live1
      rw [atOther other same]
      exact linked.attribs wasLive
  · intro other now data live1 hasData size
    obtain ⟨was, wasLive, content⟩ := attached.was upLive live live1
    obtain ⟨-, dataEq, sizeEq⟩ := content_eq content
    rw [sizeEq] at size ⊢
    exact linked.sized wasLive (dataEq ▸ hasData) size
  · intro other now live1 noParent
    by_cases same : other = parent
    · rw [same, attached.atParent] at live1
      cases live1
      have bare : up.parent = none := noParent
      have noNext := linked.root upLive bare
      exact noNext
    · by_cases isKid : other = kid
      · rw [isKid, attached.atKid] at live1
        cases live1
        cases noParent
      · rw [attached.elsewhere other same isKid] at live1
        obtain ⟨was, wasLive, rfl⟩ := map_eq_some_iff.mp live1
        split at noParent
        · rename_i last
          have inside := mem_of_getLast? last
          have bare : was.parent = none := noParent
          exact absurd bare (linked.parent_ne_none upLive inside wasLive)
        · rename_i notLast
          rw [if_neg notLast]
          exact linked.root wasLive noParent

theorem insertChild_attached (tree : Tree heap kids) {parent kid : Nat} {up cell : XmlNode}
    (upLive : heap.cells parent = some up) (live : heap.cells kid = some cell)
    (less : parent < kid) (behind : ∀ other ∈ kids parent, other < kid) :
    ∃ heap1, xmlnodeInsertChild heap parent kid = some heap1 ∧
      Attached heap heap1 kids parent kid up cell (some kid) := by
  have different : parent ≠ kid := Nat.ne_of_lt less
  have kidParent : ¬kid = parent := Ne.symm different
  have upKept : (heap.modify kid fun node => { node with parent := some parent }).cells parent =
      some up := by
    rw [Heap.modify_cells, if_neg different, upLive]
  have lastchild := tree.lastchild upLive id
  have child := tree.child upLive
  simp only [xmlnodeInsertChild, Heap.write_live live, bind_eq_bind, bind_some,
    Heap.read, upKept]
  cases ends : up.lastchild with
  | none =>
    have empty : kids parent = [] := getLast?_eq_none_iff.mp (lastchild ▸ ends)
    have noChild : up.child = none := by
      rw [child, empty]
      rfl
    simp only [bind_some, Heap.write, Heap.modify_cells, if_true, if_neg different,
      upLive, map_some]
    refine ⟨_, rfl, rfl, ?_, ?_, ?_⟩
    · simp only [Heap.modify_cells, if_true, if_neg different, upLive, map_some, noChild]
    · simp only [Heap.modify_cells, if_true, if_neg kidParent, live, map_some]
    · intro other notParent notKid
      simp only [Heap.modify_cells, if_neg notParent, if_neg notKid, empty, getLast?_nil,
        reduceCtorEq, if_false, Option.map_id']
  | some last =>
    have member : last ∈ kids parent := mem_of_getLast? (lastchild ▸ ends)
    obtain ⟨order, left, leftLive, -⟩ := tree.member upLive member
    have lastKid : last ≠ kid := Nat.ne_of_lt (behind last member)
    have lastParent : ¬parent = last := Nat.ne_of_lt order
    have hasChild : up.child ≠ none := by
      rw [child]
      intro empty
      rw [head?_eq_none_iff.mp empty] at member
      cases member
    simp only [Heap.write, Heap.modify_cells, if_neg lastKid, if_neg lastParent,
      if_neg different, leftLive, upLive, map_some, bind_some]
    refine ⟨_, rfl, rfl, ?_, ?_, ?_⟩
    · simp only [Heap.modify_cells, if_true, if_neg lastParent, if_neg different, upLive,
        map_some, if_neg hasChild]
    · simp only [Heap.modify_cells, if_true, if_neg kidParent, if_neg (Ne.symm lastKid), live,
        map_some]
    · intro other notParent notKid
      rw [← lastchild, ends]
      simp only [Heap.modify_cells, if_neg notParent, if_neg notKid, some_inj]
      by_cases same : other = last
      · simp only [same, if_true]
      · simp only [if_neg same, if_neg (Ne.symm same), Option.map_id']

theorem insertChild_tree (tree : Tree heap kids) {parent : Nat} {up cell : XmlNode}
    (upLive : heap.cells parent = some up)
    (bare : cell.parent = none ∧ cell.child = none ∧ cell.lastchild = none ∧ cell.next = none)
    (sized : ∀ data, cell.data = some data → cell.dataSz ≠ 0 →
      cell.dataSz % 2 ^ 32 ≤ data.length)
    (newKey : cell.type = .attrib → (cell.name, cell.xmlns) ∉ attribKeys heap (kids parent)) :
    ∃ heap1 kids1,
      xmlnodeInsertChild (heap.alloc cell) parent heap.fresh = some heap1 ∧ Tree heap1 kids1 := by
  have less : parent < heap.fresh := Heap.lt_fresh upLive
  have different : parent ≠ heap.fresh := Nat.ne_of_lt less
  have allocated := tree.alloc bare sized
  have upKept : (heap.alloc cell).cells parent = some up := by
    rw [Heap.alloc_cells, if_neg different, upLive]
  have live : (heap.alloc cell).cells heap.fresh = some cell := by
    rw [Heap.alloc_cells, if_pos rfl]
  have kidsEq : Function.update kids heap.fresh [] parent = kids parent :=
    Function.update_of_ne different _ _
  have behind : ∀ other ∈ Function.update kids heap.fresh [] parent, other < heap.fresh := by
    rw [kidsEq]
    exact tree.kids_bounded upLive
  obtain ⟨heap1, inserted, attached⟩ :=
    insertChild_attached allocated upKept live less behind
  refine ⟨heap1, _, inserted, allocated.attach upKept live bare.1 bare.2.2.2 less behind ?_
    attached fun _ => rfl⟩
  intro key isKey
  have keysEq : attribKeys (heap.alloc cell) (kids parent) = attribKeys heap (kids parent) := by
    apply filterMap_congr
    intro kid member
    obtain ⟨-, below, belowLive, -⟩ := tree.member upLive member
    rw [attribKey, attribKey, Heap.alloc_cells,
      if_neg (Nat.ne_of_lt (Heap.lt_fresh belowLive))]
  rw [attribKey, live, bind_some] at isKey
  split at isKey
  · rename_i attrib
    cases isKey
    rw [kidsEq, keysEq]
    exact newKey attrib
  · cases isKey

end insert

/-! ### `xmlnode_copy` -/

section copy

theorem Linked.unfinish {heap : NodeHeap} {kids : Nat → List Nat}
    {detached unfinished unfinished1 : Nat → Prop}
    (linked : Linked heap kids detached unfinished)
    (weaker : ∀ other, unfinished other → unfinished1 other) :
    Linked heap kids detached unfinished1 :=
  { linked with lastchild := fun live complete =>
      linked.lastchild live fun open' => complete (weaker _ open') }

theorem copyFields_some (src : XmlNode)
    (sized : ∀ data, src.data = some data → src.dataSz ≠ 0 →
      src.dataSz % 2 ^ 32 ≤ data.length) :
    ∃ ret, copyFields src = some ret ∧
      (ret.parent = none ∧ ret.child = none ∧ ret.lastchild = none ∧ ret.next = none) ∧
      (ret.type = src.type ∧ ret.name = src.name ∧ ret.xmlns = src.xmlns) ∧
      ∀ data, ret.data = some data → ret.dataSz ≠ 0 → ret.dataSz % 2 ^ 32 ≤ data.length := by
  simp only [copyFields]
  cases hasData : src.data with
  | none =>
    refine ⟨_, rfl, ⟨rfl, rfl, rfl, rfl⟩, ⟨rfl, rfl, rfl⟩, ?_⟩
    intro data impossible
    cases impossible
  | some data =>
    by_cases unsized : src.dataSz = 0
    · simp only [unsized, if_true]
      refine ⟨_, rfl, ⟨rfl, rfl, rfl, rfl⟩, ⟨rfl, rfl, rfl⟩, ?_⟩
      intro data _ impossible
      exact absurd rfl impossible
    · have room := sized data hasData unsized
      simp only [if_neg unsized, gMemdup, if_pos room]
      split
      · refine ⟨_, rfl, ⟨rfl, rfl, rfl, rfl⟩, ⟨rfl, rfl, rfl⟩, ?_⟩
        intro data impossible
        cases impossible
      · refine ⟨_, rfl, ⟨rfl, rfl, rfl, rfl⟩, ⟨rfl, rfl, rfl⟩, ?_⟩
        intro copied isCopied _
        cases isCopied
        rw [length_take]
        exact Nat.le_min.mpr ⟨Nat.le_refl _, room⟩

/-- Every node below `bound` has its children below it too. -/
def ClosedBelow (heap : NodeHeap) (kids : Nat → List Nat) (bound : Nat) : Prop :=
  ∀ node cell, node < bound → heap.cells node = some cell → ∀ kid ∈ kids node, kid < bound

/-- What copying `src` adds: a root at the first fresh address. -/
structure Copied (heap heap1 : NodeHeap) (kids kids1 : Nat → List Nat)
    (unfinished : Nat → Prop) (src : Nat) : Prop where
  grown : heap.fresh < heap1.fresh
  linked : Linked heap1 kids1 (fun _ => False) unfinished
  kept : ∀ {node}, node < heap.fresh →
    heap1.cells node = heap.cells node ∧ kids1 node = kids node
  root : ∃ cell, heap1.cells heap.fresh = some cell ∧ cell.parent = none ∧ cell.next = none
  key : attribKey heap1 heap.fresh = attribKey heap src

/-- What copying the children of `src` under `ret` adds. -/
structure CopiedKids (heap heap1 : NodeHeap) (kids kids1 : Nat → List Nat)
    (unfinished : Nat → Prop) (src ret : Nat) (up : XmlNode) : Prop where
  grown : heap.fresh ≤ heap1.fresh
  linked : Linked heap1 kids1 (fun _ => False) unfinished
  kept : ∀ {node}, node < ret → heap1.cells node = heap.cells node ∧ kids1 node = kids node
  parent : ∃ cell, heap1.cells ret = some cell ∧ cell.content = up.content ∧
    cell.parent = up.parent ∧ cell.next = up.next

def CopiesWithin (rounds : Nat) : Prop :=
  ∀ (heap : NodeHeap) (kids : Nat → List Nat) (unfinished : Nat → Prop) (bound src : Nat)
    (cell : XmlNode), Linked heap kids (fun _ => False) unfinished →
    (∀ node, unfinished node → node < heap.fresh) → ClosedBelow heap kids bound →
    bound ≤ heap.fresh → heap.cells src = some cell → src < bound →
    2 * (bound - src) < rounds →
    ∃ heap1 kids1, copy rounds heap src = some (heap1, heap.fresh) ∧
      Copied heap heap1 kids kids1 unfinished src

def CopiesKidsWithin (rounds : Nat) : Prop :=
  ∀ (heap : NodeHeap) (kids : Nat → List Nat) (unfinished : Nat → Prop) (bound src ret : Nat)
    (cell up : XmlNode) (front list : List Nat),
    Linked heap kids (fun _ => False) unfinished →
    (∀ node, unfinished node → node < heap.fresh) → unfinished ret →
    ClosedBelow heap kids bound → heap.cells src = some cell → src < bound → bound ≤ ret →
    heap.cells ret = some up → kids src = front ++ list →
    attribKeys heap (kids ret) = attribKeys heap front →
    (∀ x, list.head? = some x → 2 * (bound - x) + 1 < rounds) → 0 < rounds →
    ∃ heap1 kids1,
      copyChildren rounds heap ret (kids ret).getLast? list.head? =
        some (heap1, (kids1 ret).getLast?) ∧
      CopiedKids heap heap1 kids kids1 unfinished src ret up

theorem Linked.finish {heap : NodeHeap} {kids : Nat → List Nat} {detached unfinished : Nat → Prop}
    {ret : Nat} (linked : Linked heap kids detached fun node => unfinished node ∨ node = ret) :
    Linked (heap.modify ret fun node => { node with lastchild := (kids ret).getLast? }) kids
      detached unfinished := by
  have was {node : Nat} {now : XmlNode}
      (live : (heap.modify ret fun node => { node with lastchild := (kids ret).getLast? }).cells
        node = some now) :
      ∃ cell, heap.cells node = some cell ∧
        now = { cell with lastchild := if node = ret then (kids ret).getLast? else cell.lastchild }
        := by
    rw [Heap.modify_cells] at live
    split at live
    · rename_i same
      obtain ⟨cell, cellLive, rfl⟩ := map_eq_some_iff.mp live
      exact ⟨cell, cellLive, by rw [if_pos same]⟩
    · rename_i different
      exact ⟨now, live, by rw [if_neg different]⟩
  have kept {node : Nat} {cell : XmlNode} (live : heap.cells node = some cell) :
      ∃ now, (heap.modify ret fun node => { node with lastchild := (kids ret).getLast? }).cells
        node = some now ∧ now.parent = cell.parent ∧ now.next = cell.next := by
    rw [Heap.modify_cells, live]
    split
    · exact ⟨_, rfl, rfl, rfl⟩
    · exact ⟨cell, rfl, rfl, rfl⟩
  constructor
  · exact linked.sorted
  · intro node now live
    obtain ⟨cell, cellLive, rfl⟩ := was live
    have child := linked.child cellLive
    exact child
  · intro node now live complete
    obtain ⟨cell, cellLive, rfl⟩ := was live
    by_cases same : node = ret
    · rw [same]
      exact if_pos rfl
    · have lastchild := linked.lastchild cellLive (not_or.mpr ⟨complete, same⟩)
      rw [← lastchild]
      exact if_neg same
  · intro node now kid live member
    obtain ⟨cell, cellLive, rfl⟩ := was live
    obtain ⟨less, below, belowLive, parent, next⟩ := linked.member cellLive member
    obtain ⟨found, foundLive, foundParent, foundNext⟩ := kept belowLive
    exact ⟨less, found, foundLive, foundParent.trans parent, foundNext.trans next⟩
  · intro node now up live named
    obtain ⟨cell, cellLive, rfl⟩ := was live
    obtain ⟨less, ⟨above, aboveLive⟩, alone⟩ := linked.parent cellLive named
    obtain ⟨found, foundLive, -⟩ := kept aboveLive
    exact ⟨less, ⟨found, foundLive⟩, alone⟩
  · intro node now live
    obtain ⟨cell, cellLive, rfl⟩ := was live
    have keys : (kids node).filterMap (attribKey (heap.modify ret fun node =>
        { node with lastchild := (kids ret).getLast? })) =
        (kids node).filterMap (attribKey heap) := by
      apply filterMap_congr
      intro kid _
      simp only [attribKey, Heap.modify_cells]
      split
      · cases heap.cells kid <;> rfl
      · rfl
    rw [keys]
    exact linked.attribs cellLive
  · intro node now data live hasData size
    obtain ⟨cell, cellLive, rfl⟩ := was live
    have same : cell.data = some data := hasData
    have bounded := linked.sized cellLive same size
    exact bounded
  · intro node now live noParent
    obtain ⟨cell, cellLive, rfl⟩ := was live
    have noNext := linked.root cellLive noParent
    exact noNext

theorem copy_step {rounds : Nat} (copies : CopiesKidsWithin rounds) :
    CopiesWithin (rounds + 1) := by
  intro heap kids unfinished bound src cell linked below closed inside live less enough
  have srcFresh : src ≠ heap.fresh := Nat.ne_of_lt (Heap.lt_fresh live)
  obtain ⟨ret, fields, ⟨noParent, noChild, noLast, noNext⟩, ⟨type, name, xmlns⟩, sized⟩ :=
    copyFields_some cell fun data hasData size => linked.sized live hasData size
  have allocated : Linked (heap.alloc ret) (Function.update kids heap.fresh []) (fun _ => False)
      fun node => unfinished node ∨ node = heap.fresh :=
    (linked.alloc ⟨noParent, noChild, noLast, noNext⟩ sized).unfinish fun _ => Or.inl
  have kidsFresh : Function.update kids heap.fresh [] heap.fresh = [] := Function.update_self _ _ _
  have kidsOld (node : Nat) (old : node ≠ heap.fresh) :
      Function.update kids heap.fresh [] node = kids node := Function.update_of_ne old _ _
  have cellsOld (node : Nat) (old : node ≠ heap.fresh) :
      (heap.alloc ret).cells node = heap.cells node := by
    rw [Heap.alloc_cells, if_neg old]
  have retLive : (heap.alloc ret).cells heap.fresh = some ret := by
    rw [Heap.alloc_cells, if_pos rfl]
  have closedNew : ClosedBelow (heap.alloc ret) (Function.update kids heap.fresh []) bound := by
    intro node found order foundLive kid member
    have old : node ≠ heap.fresh := by omega
    rw [cellsOld node old] at foundLive
    rw [kidsOld node old] at member
    exact closed node found order foundLive kid member
  have enoughKids (x : Nat) (head : (kids src).head? = some x) :
      2 * (bound - x) + 1 < rounds := by
    have order := (linked.member live (mem_of_head? head)).1
    have bounded := closed src cell less live x (mem_of_head? head)
    omega
  obtain ⟨heap1, kids1, copied, spec⟩ := copies (heap.alloc ret)
    (Function.update kids heap.fresh []) _ bound src heap.fresh cell ret [] (kids src) allocated
    (by
      rintro node (open' | rfl)
      · exact Nat.lt_succ_of_lt (below node open')
      · exact Nat.lt_succ_self _)
    (Or.inr rfl) closedNew (by rw [cellsOld src srcFresh, live]) less inside retLive
    (kidsOld src srcFresh) (by rw [kidsFresh]) enoughKids (by omega)
  obtain ⟨now, nowLive, nowContent, nowParent, nowNext⟩ := spec.parent
  rw [kidsFresh, getLast?_nil] at copied
  have lastLive : (heap1.modify heap.fresh fun node =>
      { node with lastchild := (kids1 heap.fresh).getLast? }).cells heap.fresh =
      some { now with lastchild := (kids1 heap.fresh).getLast? } := by
    rw [Heap.modify_cells, if_pos rfl, nowLive, map_some]
  refine ⟨heap1.modify heap.fresh fun node =>
    { node with lastchild := (kids1 heap.fresh).getLast? }, kids1, ?_, ?_⟩
  · simp only [copy, Heap.read, live, bind_eq_bind, bind_some, fields,
      linked.child live, copied, Heap.write_live nowLive]
    rfl
  · constructor
    · exact spec.grown
    · exact spec.linked.finish
    · intro node order
      have old : node ≠ heap.fresh := Nat.ne_of_lt order
      obtain ⟨same, sameKids⟩ := spec.kept order
      rw [Heap.modify_cells, if_neg old]
      exact ⟨same.trans (cellsOld node old), sameKids.trans (kidsOld node old)⟩
    · exact ⟨_, lastLive, nowParent.trans noParent, nowNext.trans noNext⟩
    · obtain ⟨⟨nowName, nowXmlns, nowType⟩, -⟩ := content_eq nowContent
      rw [attribKey, attribKey, lastLive, live, bind_some, bind_some]
      simp only [nowName, nowXmlns, nowType, type, name, xmlns]

theorem copied_attached {heap : NodeHeap} {kids : Nat → List Nat} {unfinished : Nat → Prop}
    (linked : Linked heap kids (fun _ => False) unfinished) {ret copied : Nat} {up cell : XmlNode}
    (upLive : heap.cells ret = some up) (live : heap.cells copied = some cell)
    (less : ret < copied) (behind : ∀ other ∈ kids ret, other < copied) :
    ∃ heap1, (do
        let heap ←
          match (kids ret).getLast? with
          | some sibling => heap.write sibling fun node => { node with next := some copied }
          | none => heap.write ret fun node => { node with child := some copied }
        heap.write copied fun node => { node with parent := some ret }) = some heap1 ∧
      Attached heap heap1 kids ret copied up cell up.lastchild := by
  have different : ret ≠ copied := Nat.ne_of_lt less
  have child := linked.child upLive
  cases ends : (kids ret).getLast? with
  | none =>
    have empty : kids ret = [] := getLast?_eq_none_iff.mp ends
    have noChild : up.child = none := by
      rw [child, empty]
      rfl
    simp only [Heap.write, upLive, map_some, bind_eq_bind, bind_some,
      Heap.modify_cells, if_neg (Ne.symm different), live]
    refine ⟨_, rfl, rfl, ?_, ?_, ?_⟩
    · simp only [Heap.modify_cells, if_true, if_neg different, upLive, map_some, noChild]
    · simp only [Heap.modify_cells, if_true, if_neg (Ne.symm different), live, map_some]
    · intro other notRet notCopied
      simp only [Heap.modify_cells, if_neg notRet, if_neg notCopied, ends, reduceCtorEq,
        if_false, Option.map_id']
  | some last =>
    have member : last ∈ kids ret := mem_of_getLast? ends
    obtain ⟨order, left, leftLive, -⟩ := linked.member upLive member
    have lastCopied : last ≠ copied := Nat.ne_of_lt (behind last member)
    have hasChild : up.child ≠ none := by
      rw [child]
      intro empty
      rw [head?_eq_none_iff.mp empty] at member
      cases member
    simp only [Heap.write, leftLive, map_some, bind_eq_bind, bind_some,
      Heap.modify_cells, if_neg (Ne.symm lastCopied), live]
    refine ⟨_, rfl, rfl, ?_, ?_, ?_⟩
    · simp only [Heap.modify_cells, if_neg different, if_neg (Nat.ne_of_lt order), upLive,
        if_neg hasChild]
    · simp only [Heap.modify_cells, if_true, if_neg (Ne.symm lastCopied), live, map_some]
    · intro other notRet notCopied
      simp only [Heap.modify_cells, if_neg notCopied, ends, some_inj]
      by_cases same : other = last
      · simp only [same, if_true]
      · simp only [if_neg same, if_neg (Ne.symm same), Option.map_id']

theorem copyChildren_step {rounds : Nat} (copies : CopiesWithin rounds)
    (copiesKids : CopiesKidsWithin rounds) : CopiesKidsWithin (rounds + 1) := by
  intro heap kids unfinished bound src ret cell up front list linked below isOpen closed live less
    above retLive split keys enough positive
  have retFresh := Heap.lt_fresh retLive
  cases list with
  | nil =>
    exact ⟨heap, kids, rfl, Nat.le_refl _, linked, fun _ => ⟨rfl, rfl⟩, up, retLive, rfl, rfl, rfl⟩
  | cons x rest =>
    have member : x ∈ kids src := by
      rw [split]
      exact mem_append_right _ mem_cons_self
    obtain ⟨order, found, xLive, -, next⟩ := linked.member live member
    have xBound := closed src cell less live x member
    have enoughHere := enough x rfl
    obtain ⟨heap1, kids1, copied, spec⟩ := copies heap kids unfinished bound x found linked below
      closed (Nat.le_trans above (Nat.le_of_lt retFresh)) xLive xBound (by omega)
    obtain ⟨root, rootLive, rootParent, rootNext⟩ := spec.root
    have retLive1 : heap1.cells ret = some up := (spec.kept retFresh).1.trans retLive
    have retKids : kids1 ret = kids ret := (spec.kept retFresh).2
    have behind : ∀ other ∈ kids1 ret, other < heap.fresh := by
      rw [retKids]
      exact linked.kids_bounded retLive
    -- the keys of nodes that were there before the copy
    have oldKeys (nodes : List Nat) (old : ∀ node ∈ nodes, node < heap.fresh) :
        attribKeys heap1 nodes = attribKeys heap nodes := by
      apply filterMap_congr
      intro node inside
      rw [attribKey, attribKey, (spec.kept (old node inside)).1]
    have frontOld : ∀ node ∈ front, node < heap.fresh := by
      intro node inside
      apply linked.kids_bounded live
      rw [split]
      exact mem_append_left _ inside
    have keys1 : attribKeys heap1 (kids1 ret) = attribKeys heap front := by
      rw [oldKeys _ behind, retKids, keys]
    have newKey (key : Option Str × Option Str)
        (isKey : attribKey heap1 heap.fresh = some key) :
        key ∉ attribKeys heap1 (kids1 ret) := by
      have distinct := linked.attribs live
      rw [spec.key] at isKey
      rw [split, filterMap_append, filterMap_cons_some isKey,
        nodup_append] at distinct
      rw [keys1]
      intro inside
      exact distinct.2.2 key inside key mem_cons_self rfl
    obtain ⟨heap2, attachedRun, attached⟩ :=
      copied_attached spec.linked retLive1 rootLive retFresh behind
    have linked2 := spec.linked.attach retLive1 rootLive rootParent rootNext retFresh behind
      newKey attached fun impossible => absurd isOpen impossible
    have before (node : Nat) (early : node < ret) : heap2.cells node = heap.cells node ∧
        Function.update kids1 ret (kids1 ret ++ [heap.fresh]) node = kids node := by
      have notRet : node ≠ ret := Nat.ne_of_lt early
      have old : node < heap.fresh := Nat.lt_trans early retFresh
      have notLast : (kids1 ret).getLast? ≠ some node := by
        intro last
        rw [retKids] at last
        have later := (linked.member retLive (mem_of_getLast? last)).1
        omega
      rw [attached.elsewhere node notRet (Nat.ne_of_lt old), Function.update_of_ne notRet]
      simp only [if_neg notLast, Option.map_id']
      exact spec.kept old
    have grown : heap2.fresh = heap1.fresh := attached.fresh
    have keys2 : attribKeys heap2 (Function.update kids1 ret (kids1 ret ++ [heap.fresh]) ret) =
        attribKeys heap2 (front ++ [x]) := by
      have same : attribKey heap2 = attribKey heap1 :=
        funext (attached.attribKey retLive1 rootLive)
      have xKey : attribKey heap1 heap.fresh = attribKey heap1 x := by
        rw [spec.key, attribKey, attribKey, (spec.kept (Heap.lt_fresh xLive)).1]
      rw [Function.update_self, attribKeys, attribKeys, same, filterMap_append,
        filterMap_append]
      congr 1
      · exact keys1.trans (oldKeys front frontOld).symm
      · simp only [filterMap_cons, xKey]
    have enoughRest (y : Nat) (head : rest.head? = some y) : 2 * (bound - y) + 1 < rounds := by
      have sorted := linked.sorted src
      have inside : y ∈ kids src := by
        rw [split]
        exact mem_append_right _ (mem_cons_of_mem _ (mem_of_head? head))
      have yBound := closed src cell less live y inside
      rw [split, pairwise_append, pairwise_cons] at sorted
      have later := sorted.2.1.1 y (mem_of_head? head)
      omega
    obtain ⟨heap3, kids3, looped, last⟩ := copiesKids heap2 _ unfinished bound src ret cell _
      (front ++ [x]) rest linked2
      (fun node open' => by
        have old := below node open'
        have larger := spec.grown
        omega)
      isOpen
      (fun node now early nowLive kid inside => by
        obtain ⟨sameCell, sameKids⟩ := before node (by omega)
        rw [sameCell] at nowLive
        rw [sameKids] at inside
        exact closed node now early nowLive kid inside)
      ((before src (by omega)).1.trans live) less above attached.atParent
      (by rw [(before src (by omega)).2, split]; simp) keys2 enoughRest (by omega)
    have nextHere : (heap2.cells x).map XmlNode.next = some rest.head? := by
      rw [(before x (by omega)).1, xLive, map_some, next, split, after_append]
      rw [← split]
      exact linked.unique src
    refine ⟨heap3, kids3, ?_, ?_⟩
    · rw [retKids] at attachedRun
      rw [head?_cons, copyChildren, copied]
      simp only [bind_eq_bind, bind_some] at attachedRun ⊢
      rw [Function.update_self, getLast?_concat] at looped
      have continued : ((heap2.read x).bind fun found =>
          copyChildren rounds heap2 ret (some heap.fresh) found.next) =
          some (heap3, (kids3 ret).getLast?) := by
        obtain ⟨now, nowLive, nowNext⟩ := map_eq_some_iff.mp nextHere
        rw [Heap.read, nowLive, bind_some, nowNext]
        exact looped
      cases ends : (kids ret).getLast? with
      | none =>
        rw [ends] at attachedRun
        obtain ⟨between, wrote, parented⟩ := bind_eq_some_iff.mp attachedRun
        simp only [wrote, bind_some, parented]
        exact continued
      | some sibling =>
        rw [ends] at attachedRun
        obtain ⟨between, wrote, parented⟩ := bind_eq_some_iff.mp attachedRun
        simp only [wrote, bind_some, parented]
        exact continued
    · constructor
      · exact Nat.le_trans (Nat.le_of_lt (grown ▸ spec.grown)) last.grown
      · exact last.linked
      · intro node early
        obtain ⟨sameCell, sameKids⟩ := before node early
        obtain ⟨lastCell, lastKids⟩ := last.kept early
        exact ⟨lastCell.trans sameCell, lastKids.trans sameKids⟩
      · exact last.parent

theorem copies (rounds : Nat) : CopiesWithin rounds ∧ CopiesKidsWithin rounds := by
  induction rounds with
  | zero =>
    constructor
    · intro heap kids unfinished bound src cell linked below closed inside live less enough
      exact absurd enough (Nat.not_lt_zero _)
    · intro heap kids unfinished bound src ret cell up front list linked below isOpen closed live
        less above retLive split keys enough positive
      exact absurd positive (Nat.lt_irrefl 0)
  | succ rounds ih =>
    obtain ⟨copies, copiesKids⟩ := ih
    exact ⟨copy_step copiesKids, copyChildren_step copies copiesKids⟩

end copy

end Purple.Xml
