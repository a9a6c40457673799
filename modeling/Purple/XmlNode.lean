/-
The tree operations of xmlnode.c over a heap of nodes.

A node is known by its address and `none` is NULL.  A result of `none` means
that a node was used after it was freed, so a defined result is a safety fact.
The loops and the recursions of the source carry a fuel argument; the callers
pass more than the heap has nodes.
-/

import Mathlib.Algebra.Ring.Int.Defs
import Purple.CString
import Purple.Memory.Heap

namespace Purple.Xml

open Memory

abbrev Str := List UInt8

inductive XmlNodeType where
  | tag
  | attrib
  | data
deriving DecidableEq, Repr

structure XmlNode where
  name : Option Str
  xmlns : Option Str
  type : XmlNodeType
  data : Option (List UInt8)
  dataSz : Nat
  parent : Option Nat
  child : Option Nat
  lastchild : Option Nat
  next : Option Nat
  nsPrefix : Option Str
  namespaceMap : Option (List (Str × Str))
deriving DecidableEq, Repr

abbrev NodeHeap := Heap XmlNode

/-- The record `new_node` allocates. -/
def newNode (name : Option Str) (type : XmlNodeType) : XmlNode :=
  { name
    xmlns := none
    type
    data := none
    dataSz := 0
    parent := none
    child := none
    lastchild := none
    next := none
    nsPrefix := none
    namespaceMap := none }

/-- `name != NULL && *name != '\0'`. -/
def isName (name : Option Str) : Bool := name.any (!·.isEmpty)

def xmlnodeNew (heap : NodeHeap) (name : Option Str) : NodeHeap :=
  if isName name then heap.alloc (newNode name .tag) else heap

def xmlnodeInsertChild (heap : NodeHeap) (parent child : Nat) : Option NodeHeap := do
  let heap ← heap.write child fun node => { node with parent := some parent }
  let heap ←
    match (← heap.read parent).lastchild with
    | some last => heap.write last fun node => { node with next := some child }
    | none => heap.write parent fun node => { node with child := some child }
  heap.write parent fun node => { node with lastchild := some child }

def xmlnodeNewChild (heap : NodeHeap) (parent : Option Nat) (name : Option Str) :
    Option NodeHeap :=
  match parent with
  | none => some heap
  | some parent =>
    if isName name then
      xmlnodeInsertChild (heap.alloc (newNode name .tag)) parent heap.fresh
    else some heap

/-- `g_memdup`, whose size is a `guint`; the memory must hold that many bytes. -/
def gMemdup (memory : List UInt8) (size : Nat) : Option (Option (List UInt8)) :=
  if size % 2 ^ 32 = 0 then some none
  else if size % 2 ^ 32 ≤ memory.length then some (some (memory.take (size % 2 ^ 32))) else none

/-- `data` is the memory at the pointer; a size of -1 asks for its string. -/
def xmlnodeInsertData (heap : NodeHeap) (node : Option Nat) (data : Option (List UInt8))
    (size : Int) : Option NodeHeap :=
  match node, data with
  | some node, some data =>
    if size = 0 then some heap
    else do
      let realSize :=
        if size = -1 then (CString.cString data).length else (size % 2 ^ 64).toNat
      let copied ← gMemdup data realSize
      xmlnodeInsertChild
        (heap.alloc { newNode none .data with data := copied, dataSz := realSize }) node
        heap.fresh
  | _, _ => some heap

/-- `while(prev && prev->next != node) prev = prev->next;` -/
def findPrev (heap : NodeHeap) (node : Nat) : Nat → Option Nat → Option (Option Nat)
  | 0, _ => none
  | _ + 1, none => some none
  | rounds + 1, some prev => do
    let next := (← heap.read prev).next
    if next = some node then some (some prev) else findPrev heap node rounds next

/-- The part of `xmlnode_free` that removes the node from its tree. -/
def unlink (heap : NodeHeap) (node : Nat) : Option NodeHeap := do
  let freed ← heap.read node
  match freed.parent with
  | none => some heap
  | some parent =>
    let above ← heap.read parent
    if above.child = some node then
      let heap ← heap.write parent fun up => { up with child := freed.next }
      if above.lastchild = some node then
        heap.write parent fun up => { up with lastchild := freed.next }
      else some heap
    else
      match ← findPrev heap node (heap.fresh + 1) above.child with
      | none => some heap
      | some prev =>
        let heap ← heap.write prev fun left => { left with next := freed.next }
        if above.lastchild = some node then
          heap.write parent fun up => { up with lastchild := some prev }
        else some heap

mutual

/-- `xmlnode_free` of a node that is not NULL. -/
def free : Nat → NodeHeap → Nat → Option NodeHeap
  | 0, _, _ => none
  | rounds + 1, heap, node => do
    let heap ← unlink heap node
    let heap ← freeChildren rounds heap (← heap.read node).child
    heap.dispose node

/-- `while(x) { y = x->next; xmlnode_free(x); x = y; }` -/
def freeChildren : Nat → NodeHeap → Option Nat → Option NodeHeap
  | 0, _, _ => none
  | _ + 1, heap, none => some heap
  | rounds + 1, heap, some x => do
    let y := (← heap.read x).next
    let heap ← free rounds heap x
    freeChildren rounds heap y

end

/-- Each address is entered at most twice, once as a child and once as a node. -/
def xmlnodeFree (heap : NodeHeap) (node : Nat) : Option NodeHeap :=
  free (2 * heap.fresh + 1) heap node

/-- The loop of `xmlnode_remove_attrib`.  After the first round `sibling` is the
node in hand, not the one in front of it. -/
def removeAttribLoop (node : Nat) (attr : Str) :
    Nat → NodeHeap → Option Nat → Option Nat → Option NodeHeap
  | 0, _, _, _ => none
  | _ + 1, heap, none, _ => some heap
  | rounds + 1, heap, some attrNode, sibling => do
    let cell ← heap.read attrNode
    if cell.type = .attrib ∧ cell.name = some attr then
      let heap ←
        if (← heap.read node).lastchild = some attrNode then
          heap.write node fun up => { up with lastchild := sibling }
        else some heap
      match sibling with
      | none =>
        let heap ← heap.write node fun up => { up with child := cell.next }
        let heap ← xmlnodeFree heap attrNode
        let attrNode := (← heap.read node).child
        removeAttribLoop node attr rounds heap attrNode attrNode
      | some sibling =>
        let heap ← heap.write sibling fun left => { left with next := cell.next }
        let sibling := (← heap.read attrNode).next
        let heap ← xmlnodeFree heap attrNode
        removeAttribLoop node attr rounds heap sibling sibling
    else removeAttribLoop node attr rounds heap cell.next cell.next

def xmlnodeRemoveAttrib (heap : NodeHeap) (node : Option Nat) (attr : Option Str) :
    Option NodeHeap :=
  match node, attr with
  | some node, some attr => do
    removeAttribLoop node attr (heap.fresh + 1) heap (← heap.read node).child none
  | _, _ => some heap

/-- The loop of `xmlnode_remove_attrib_with_namespace`. -/
def removeAttribWithNamespaceLoop (node : Nat) (attr : Str) (xmlns : Option Str) :
    Nat → NodeHeap → Option Nat → Option Nat → Option NodeHeap
  | 0, _, _, _ => none
  | _ + 1, heap, none, _ => some heap
  | rounds + 1, heap, some attrNode, sibling => do
    let cell ← heap.read attrNode
    if cell.type = .attrib ∧ some attr = cell.name ∧ xmlns = cell.xmlns then
      let heap ←
        match sibling with
        | none => heap.write node fun up => { up with child := cell.next }
        | some sibling => heap.write sibling fun left => { left with next := cell.next }
      let heap ←
        if (← heap.read node).lastchild = some attrNode then
          heap.write node fun up => { up with lastchild := sibling }
        else some heap
      xmlnodeFree heap attrNode
    else
      removeAttribWithNamespaceLoop node attr xmlns rounds heap cell.next (some attrNode)

def xmlnodeRemoveAttribWithNamespace (heap : NodeHeap) (node : Option Nat) (attr : Option Str)
    (xmlns : Option Str) : Option NodeHeap :=
  match node, attr with
  | some node, some attr => do
    removeAttribWithNamespaceLoop node attr xmlns (heap.fresh + 1) heap
      (← heap.read node).child none
  | _, _ => some heap

def xmlnodeSetAttribFull (heap : NodeHeap) (node : Option Nat) (attr xmlns nsPrefix : Option Str)
    (value : Option Str) : Option NodeHeap :=
  match node, attr, value with
  | some node, some attr, some value => do
    let heap ← xmlnodeRemoveAttribWithNamespace heap node (some attr) xmlns
    xmlnodeInsertChild
      (heap.alloc { newNode (some attr) .attrib with data := some value, xmlns, nsPrefix }) node
      heap.fresh
  | _, _, _ => some heap

def xmlnodeSetAttrib (heap : NodeHeap) (node : Option Nat) (attr value : Option Str) :
    Option NodeHeap := do
  let heap ← xmlnodeRemoveAttrib heap node attr
  xmlnodeSetAttribFull heap node attr none none value

def xmlnodeSetAttribWithNamespace (heap : NodeHeap) (node : Option Nat)
    (attr xmlns value : Option Str) : Option NodeHeap :=
  xmlnodeSetAttribFull heap node attr xmlns none value

def xmlnodeSetAttribWithPrefix (heap : NodeHeap) (node : Option Nat)
    (attr nsPrefix value : Option Str) : Option NodeHeap :=
  xmlnodeSetAttribFull heap node attr none nsPrefix value

/-- The fields `xmlnode_copy` duplicates; an attribute's data has no size. -/
def copyFields (src : XmlNode) : Option XmlNode := do
  let ret := newNode src.name src.type
  let (data, dataSz) ←
    match src.data with
    | none => some (none, 0)
    | some data =>
      if src.dataSz = 0 then some (some data, 0)
      else (gMemdup data src.dataSz).map fun copied => (copied, src.dataSz)
  return { ret with
    xmlns := src.xmlns, data, dataSz, nsPrefix := src.nsPrefix, namespaceMap := src.namespaceMap }

mutual

def copy : Nat → NodeHeap → Nat → Option (NodeHeap × Nat)
  | 0, _, _ => none
  | rounds + 1, heap, src => do
    let cell ← heap.read src
    let ret := heap.fresh
    let heap := heap.alloc (← copyFields cell)
    let (heap, sibling) ← copyChildren rounds heap ret none cell.child
    let heap ← heap.write ret fun node => { node with lastchild := sibling }
    return (heap, ret)

def copyChildren : Nat → NodeHeap → Nat → Option Nat → Option Nat →
    Option (NodeHeap × Option Nat)
  | 0, _, _, _, _ => none
  | _ + 1, heap, _, sibling, none => some (heap, sibling)
  | rounds + 1, heap, ret, sibling, some child => do
    let (heap, copied) ← copy rounds heap child
    let heap ←
      match sibling with
      | some sibling => heap.write sibling fun node => { node with next := some copied }
      | none => heap.write ret fun node => { node with child := some copied }
    let heap ← heap.write copied fun node => { node with parent := some ret }
    copyChildren rounds heap ret (some copied) (← heap.read child).next

end

def xmlnodeCopy (heap : NodeHeap) (src : Option Nat) : Option NodeHeap :=
  match src with
  | none => some heap
  | some src => (copy (2 * heap.fresh + 1) heap src).map Prod.fst

inductive Call where
  | new (name : Option Str)
  | newChild (parent : Option Nat) (name : Option Str)
  | insertData (node : Option Nat) (data : Option (List UInt8)) (size : Int)
  | setAttrib (node : Option Nat) (attr value : Option Str)
  | setAttribWithNamespace (node : Option Nat) (attr xmlns value : Option Str)
  | setAttribWithPrefix (node : Option Nat) (attr nsPrefix value : Option Str)
  | setAttribFull (node : Option Nat) (attr xmlns nsPrefix value : Option Str)
  | removeAttrib (node : Option Nat) (attr : Option Str)
  | removeAttribWithNamespace (node : Option Nat) (attr xmlns : Option Str)
  | free (node : Option Nat)
  | copy (src : Option Nat)

def step (heap : NodeHeap) : Call → Option NodeHeap
  | .new name => some (xmlnodeNew heap name)
  | .newChild parent name => xmlnodeNewChild heap parent name
  | .insertData node data size => xmlnodeInsertData heap node data size
  | .setAttrib node attr value => xmlnodeSetAttrib heap node attr value
  | .setAttribWithNamespace node attr xmlns value =>
    xmlnodeSetAttribWithNamespace heap node attr xmlns value
  | .setAttribWithPrefix node attr nsPrefix value =>
    xmlnodeSetAttribWithPrefix heap node attr nsPrefix value
  | .setAttribFull node attr xmlns nsPrefix value =>
    xmlnodeSetAttribFull heap node attr xmlns nsPrefix value
  | .removeAttrib node attr => xmlnodeRemoveAttrib heap node attr
  | .removeAttribWithNamespace node attr xmlns =>
    xmlnodeRemoveAttribWithNamespace heap node attr xmlns
  | .free none => some heap
  | .free (some node) => xmlnodeFree heap node
  | .copy src => xmlnodeCopy heap src

end Purple.Xml
