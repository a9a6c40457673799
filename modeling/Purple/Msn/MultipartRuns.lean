/-
Messages in several parts are put together as their ids say.

What is pending for an id is a function of the messages with that id alone.  The
table holds exactly that, in messages that are alive, while no first part comes
twice and no part comes without its first one.
-/

import Purple.Msn.Multipart
import Purple.PartialRun

namespace Purple.Msn

open List Option Memory CString

/-! ### Putting parts together -/

inductive Role where
  | whole
  | first (chunks : UInt32)
  | chunk (number : UInt32)

def Incoming.header (incoming : Incoming) (name : String) : Option (List UInt8) :=
  incoming.headers.lookup (ascii name)

def Incoming.messageId (incoming : Incoming) : Option (List UInt8) := incoming.header "Message-ID"

def Incoming.role (incoming : Incoming) : Role :=
  match incoming.header "Chunks" with
  | some text => .first (chunkNumber text)
  | none =>
    match incoming.header "Chunk" with
    | some text => .chunk (chunkNumber text)
    | none => .whole

/-- The parts of a message that have arrived, the first one first. -/
structure Assembly where
  total : UInt32
  contentType : Option (List UInt8)
  parts : List (List UInt8)

def Assembly.Next (assembly : Assembly) (number : UInt32) : Prop :=
  assembly.parts.length = number.toNat

def Assembly.Last (assembly : Assembly) : Prop := assembly.parts.length + 1 = assembly.total.toNat

instance (assembly : Assembly) (number : UInt32) : Decidable (assembly.Next number) :=
  inferInstanceAs (Decidable (_ = _))

instance (assembly : Assembly) : Decidable assembly.Last := inferInstanceAs (Decidable (_ = _))

def InRange (chunks : UInt32) : Prop := 0 < chunks ∧ chunks < 1024

instance (chunks : UInt32) : Decidable (InRange chunks) := inferInstanceAs (Decidable (_ ∧ _))

def addPart (number : UInt32) (body : List UInt8) (assembly : Assembly) : Option Assembly :=
  if ¬assembly.Next number ∨ assembly.Last then none
  else some { assembly with parts := assembly.parts ++ [body] }

/-- What is pending for an id after one more message with it.  A part that is not the next
one ends it, as the last one does. -/
def assemble (pending : Option Assembly) (incoming : Incoming) : Option Assembly :=
  match incoming.role with
  | .whole => pending
  | .first chunks =>
    if ¬InRange chunks then pending
    else if chunks = 1 then none
    else some { total := chunks, contentType := incoming.contentType, parts := [incoming.body] }
  | .chunk number => pending.bind (addPart number incoming.body)

def hasId (id : List UInt8) (incoming : Incoming) : Bool := incoming.messageId == some id

def pendingOf (id : List UInt8) (history : List Incoming) : Option Assembly :=
  (history.filter (hasId id)).foldl assemble none

/-- A message that is given to the callbacks of its content type; `total` is 0 where it
has only one part. -/
structure Delivery where
  contentType : Option (List UInt8)
  total : UInt32
  body : List UInt8
deriving DecidableEq

def deliverWhole (incoming : Incoming) : List Delivery :=
  if incoming.contentType = none then []
  else [{ contentType := incoming.contentType, total := 0, body := incoming.body }]

def deliverChunk (number : UInt32) (body : List UInt8) (assembly : Assembly) : List Delivery :=
  if assembly.Next number ∧ assembly.Last then
    [{ contentType := assembly.contentType, total := assembly.total
       body := (assembly.parts ++ [body]).flatten }]
  else []

def deliverIdentified (pending : Option Assembly) (incoming : Incoming) : List Delivery :=
  match incoming.role with
  | .whole => deliverWhole incoming
  | .first chunks =>
    if chunks = 1 then
      [{ contentType := incoming.contentType, total := 1, body := incoming.body }]
    else []
  | .chunk number => pending.elim [] (deliverChunk number incoming.body)

def delivery (before : List Incoming) (incoming : Incoming) : List Delivery :=
  incoming.messageId.elim (deliverWhole incoming) fun id =>
    deliverIdentified (pendingOf id before) incoming

def deliveries (before : List Incoming) : List Incoming → List Delivery
  | [] => []
  | incoming :: later => delivery before incoming ++ deliveries (before ++ [incoming]) later

variable {incoming : Incoming} {number chunks : UInt32} {heap : Heap MsnMessage}
  {entry : Multipart} {first msg : MsnMessage} {cmdproc : MsnCmdProc}
  {history messages : List Incoming} {assembly : Assembly}

theorem deliveries_concat (before history : List Incoming) (incoming : Incoming) :
    deliveries before (history ++ [incoming]) =
      deliveries before history ++ delivery (before ++ history) incoming := by
  induction history generalizing before with
  | nil =>
    rw [nil_append, deliveries, deliveries, deliveries, append_nil, append_nil,
      nil_append]
  | cons first history ih =>
    rw [cons_append, deliveries, deliveries, ih, append_assoc, append_assoc]
    rfl

theorem pendingOf_concat (id : List UInt8) (history : List Incoming) (incoming : Incoming) :
    pendingOf id (history ++ [incoming]) =
      if incoming.messageId = some id then assemble (pendingOf id history) incoming
      else pendingOf id history := by
  rw [pendingOf, filter_append, foldl_append]
  by_cases own : incoming.messageId = some id
  · have kept : [incoming].filter (hasId id) = [incoming] :=
      filter_cons_of_pos (beq_iff_eq.mpr own)
    rw [if_pos own, kept]
    rfl
  · have dropped : [incoming].filter (hasId id) = [] :=
      filter_cons_of_neg fun same => own (beq_iff_eq.mp same)
    rw [if_neg own, dropped]
    rfl

theorem assemble_chunk (role : incoming.role = .chunk number) (pending : Option Assembly) :
    assemble pending incoming = pending.bind (addPart number incoming.body) := by
  rw [assemble, role]

theorem delivery_first {id : List UInt8} (named : incoming.messageId = some id)
    (role : incoming.role = .first chunks) (several : chunks ≠ 1) (before : List Incoming) :
    delivery before incoming = [] := by
  rw [delivery, named, elim_some, deliverIdentified, role]
  exact if_neg several

theorem delivery_chunk {id : List UInt8} (named : incoming.messageId = some id)
    (role : incoming.role = .chunk number) (before : List Incoming) :
    delivery before incoming =
      (pendingOf id before).elim [] (deliverChunk number incoming.body) := by
  rw [delivery, named, elim_some, deliverIdentified, role]

structure Assembled (id : List UInt8) (assembly : Assembly) (msg : MsnMessage) : Prop where
  refs : msg.refCount = 1
  named : msnMessageGetHeaderValue msg "Message-ID" = some id
  contentType : msg.contentType = assembly.contentType
  total : msg.totalChunks = assembly.total
  received : msg.receivedChunks.toNat = assembly.parts.length
  unfinished : assembly.parts.length < assembly.total.toNat
  bodyLen : msg.bodyLen = assembly.parts.flatten.length
  content : msg.body.load 0 msg.bodyLen = some (assembly.parts.flatten.map some)

/-- The entry of an id agrees with what is pending; its key is in the headers of its
message. -/
def Pending (heap : Heap MsnMessage) (id : List UInt8) (found : Option Multipart) :
    Option Assembly → Prop
  | none => found = none
  | some assembly => ∃ entry msg, found = some entry ∧ entry.key = entry.message ∧
      heap.cells entry.message = some msg ∧ Assembled id assembly msg

def content (msg : MsnMessage) : Option Delivery :=
  ((msg.body.load 0 msg.bodyLen).bind fun cells => cells.mapM id).map fun body =>
    { contentType := msg.contentType, total := msg.totalChunks, body }

def Terminated (msg : MsnMessage) : Prop := msg.body[msg.bodyLen]? = some (some 0)

structure Tabled (history : List Incoming) (cmdproc : MsnCmdProc) : Prop where
  pending : ∀ id, Pending cmdproc.heap id (cmdproc.multiparts.lookup id) (pendingOf id history)
  dispatched : cmdproc.dispatched.map content = (deliveries [] history).map some
  unterminated : ∀ msg ∈ cmdproc.dispatched, msg.totalChunks ≠ 0 → ¬Terminated msg

theorem pending_frame {after : Heap MsnMessage} {id : List UInt8} {found : Option Multipart}
    {assembly : Option Assembly} (pending : Pending heap id found assembly)
    (same : ∀ entry, found = some entry → ∀ msg, heap.cells entry.message = some msg →
      after.cells entry.message = some msg) : Pending after id found assembly := by
  cases assembly with
  | none => exact pending
  | some assembly =>
    obtain ⟨entry, msg, isEntry, key, live, assembled⟩ := pending
    exact ⟨entry, msg, isEntry, key, same entry isEntry msg live, assembled⟩

theorem pending_distinct {id other : List UInt8} {otherEntry : Multipart}
    {assembly otherAssembly : Option Assembly} (pending : Pending heap id (some entry) assembly)
    (otherPending : Pending heap other (some otherEntry) otherAssembly) (different : other ≠ id) :
    otherEntry.message ≠ entry.message := by
  intro same
  cases assembly with
  | none => cases pending
  | some assembly =>
    cases otherAssembly with
    | none => cases otherPending
    | some otherAssembly =>
      obtain ⟨entry, msg, isEntry, _key, live, assembled⟩ := pending
      obtain ⟨otherEntry, otherMsg, isOther, _otherKey, otherLive, otherAssembled⟩ :=
        otherPending
      cases isEntry
      cases isOther
      rw [same, live] at otherLive
      cases otherLive
      have names := assembled.named.symm.trans otherAssembled.named
      exact different (Option.some.inj names).symm

theorem parsedMessage_loads (incoming : Incoming) :
    (parsedMessage incoming).body.load 0 (parsedMessage incoming).bodyLen =
      some (incoming.body.map some) := by
  unfold parsedMessage
  dsimp only
  by_cases empty : incoming.body = []
  · rw [if_pos empty, empty]
    rfl
  · rw [if_neg empty, map_append]
    have front := Block.load_front [] (incoming.body.map some)
      (prefix_append (incoming.body.map some) ([(0 : UInt8)].map some))
    rw [length_map] at front
    exact front

theorem content_parsed (incoming : Incoming) :
    content (parsedMessage incoming) =
      some { contentType := incoming.contentType, total := 0, body := incoming.body } := by
  rw [content, parsedMessage_loads, bind_some, mapM_stored]
  rfl

theorem appendBody_grows {old : List UInt8}
    (loads : first.body.load 0 first.bodyLen = some (old.map some))
    (length : first.bodyLen = old.length) (incoming : Incoming) :
    appendBody first (parsedMessage incoming) =
      some { first with
        body := (old ++ incoming.body).map some
        bodyLen := (old ++ incoming.body).length
        receivedChunks := first.receivedChunks + 1 } := by
  have size : (old.map (@some UInt8)).length = old.length := length_map _
  have more : (incoming.body.map (@some UInt8)).length = incoming.body.length :=
    length_map _
  have front : old.map some <+: first.body := by
    obtain ⟨room, _sized, cells⟩ := (Block.load_eq_some_iff _ _ _ _).mp loads
    rw [Block.load_some _ room, drop_zero] at loads
    rw [← Option.some.inj loads]
    exact take_prefix _ _
  have kept : old.map some <+: first.body.realloc (first.bodyLen + incoming.body.length) := by
    refine Block.prefix_realloc front ?_
    rw [size, length]
    exact Nat.le_add_right _ _
  obtain ⟨stored, store, stays, whole⟩ :=
    @Block.store_after _ _ _ (incoming.body.map some) kept
      (Nat.le_of_eq (by rw [Block.realloc_length, size, more, length]))
  have exact' : old.map some ++ incoming.body.map some = stored := by
    refine whole.eq_of_length ?_
    rw [stays, Block.realloc_length, length_append, size, more, length]
  rw [size, ← length] at store
  have other : (parsedMessage incoming).bodyLen = incoming.body.length := rfl
  rw [appendBody, parsedMessage_loads, bind_some, other, store, map_some, ← exact',
    length, map_append, length_append]

def allocated (cmdproc : MsnCmdProc) (incoming : Incoming) : MsnCmdProc :=
  { cmdproc with heap := cmdproc.heap.alloc (parsedMessage incoming) }

theorem allocated_own (cmdproc : MsnCmdProc) (incoming : Incoming) :
    (allocated cmdproc incoming).heap.cells cmdproc.heap.fresh = some (parsedMessage incoming) := by
  rw [allocated, Heap.alloc_cells, if_pos rfl]

theorem allocated_live (incoming : Incoming) {address : Nat}
    (live : cmdproc.heap.cells address = some msg) :
    (allocated cmdproc incoming).heap.cells address = some msg := by
  rw [allocated, Heap.alloc_cells, if_neg (Nat.ne_of_lt (Heap.lt_fresh live)), live]

theorem unref_frees {address : Nat} (live : heap.cells address = some msg)
    (refs : msg.refCount = 1) : msnMessageUnref heap address = some (heap.remove address) := by
  rw [msnMessageUnref, Heap.read, live, bind_some, if_pos refs, Heap.dispose_live live]

def released (processed : MsnCmdProc) (msg : Nat) : MsnCmdProc :=
  { processed with heap := processed.heap.remove msg }

theorem msgCmdPost_frees {processed : MsnCmdProc} {own : MsnMessage}
    (done : msnCmdprocProcessMsg (allocated cmdproc incoming) cmdproc.heap.fresh = some processed)
    (live : processed.heap.cells cmdproc.heap.fresh = some own) (refs : own.refCount = 1) :
    msgCmdPost cmdproc incoming = some (released processed cmdproc.heap.fresh) := by
  change (msnCmdprocProcessMsg (allocated cmdproc incoming) cmdproc.heap.fresh).bind _ = _
  rw [done, bind_some, unref_frees live refs]
  rfl

theorem pending_released {after : Heap MsnMessage} {id : List UInt8} {found : Option Multipart}
    {assembly : Option Assembly} {own : Nat} (pending : Pending heap id found assembly)
    (bound : ∀ address, own ≤ address →
      heap.cells address = none)
    (same : ∀ address msg, heap.cells address = some msg → after.cells address = some msg) :
    Pending (after.remove own) id found assembly := by
  refine pending_frame pending fun entry _isEntry msg live => ?_
  have different : entry.message ≠ own := by
    intro equal
    rw [bound entry.message (Nat.le_of_eq equal.symm)] at live
    cases live
  rw [Heap.remove_cells, if_neg different]
  exact same _ _ live

theorem kept_unchanged {history : List Incoming} {cmdproc : MsnCmdProc} {incoming : Incoming}
    (kept : Tabled history cmdproc) {heap : Heap MsnMessage} {newest : List MsnMessage}
    (same : ∀ address msg, cmdproc.heap.cells address = some msg →
      heap.cells address = some msg)
    (still : ∀ id, pendingOf id (history ++ [incoming]) = pendingOf id history)
    (delivered : newest.map content = (delivery history incoming).map some)
    (unterminated : ∀ msg ∈ newest, msg.totalChunks ≠ 0 → ¬Terminated msg) :
    Tabled (history ++ [incoming])
      (released { cmdproc with heap, dispatched := cmdproc.dispatched ++ newest }
        cmdproc.heap.fresh) := by
  refine ⟨fun id => ?_, ?_, fun msg member => ?_⟩
  · rw [still]
    exact pending_released (kept.pending id) cmdproc.heap.bounded same
  · change (cmdproc.dispatched ++ newest).map content = _
    rw [map_append, kept.dispatched, delivered, deliveries_concat, nil_append,
      map_append]
  · cases mem_append.mp member with
    | inl early => exact kept.unterminated msg early
    | inr late => exact unterminated msg late

theorem multipartsLookup_absent {id : List UInt8} (absent : cmdproc.multiparts.lookup id = none) :
    multipartsLookup cmdproc id = some none := by
  rw [multipartsLookup, absent]

theorem multipartsLookup_present {id : List UInt8} {owner : MsnMessage}
    (present : cmdproc.multiparts.lookup id = some entry)
    (live : cmdproc.heap.cells entry.key = some owner) :
    multipartsLookup cmdproc id = some (some entry) := by
  rw [multipartsLookup, present]
  change (cmdproc.heap.cells entry.key).map _ = _
  rw [live]
  rfl

theorem multipartsRemove_absent {id : List UInt8} (absent : cmdproc.multiparts.lookup id = none) :
    multipartsRemove cmdproc id = some cmdproc := by
  rw [multipartsRemove, multipartsLookup_absent absent]
  rfl

theorem multipartsRemove_present {id : List UInt8}
    (present : cmdproc.multiparts.lookup id = some entry) (key : entry.key = entry.message)
    (live : cmdproc.heap.cells entry.message = some msg) (refs : msg.refCount = 1) :
    multipartsRemove cmdproc id =
      some { cmdproc with
        heap := cmdproc.heap.remove entry.message
        multiparts := cmdproc.multiparts.remove id } := by
  rw [multipartsRemove, multipartsLookup_present present (key ▸ live), bind_some,
    elim_some, unref_frees live refs]
  rfl

def wholeDispatch (incoming : Incoming) : List MsnMessage :=
  if incoming.contentType = none then [] else [parsedMessage incoming]

theorem wholeDispatch_delivered (incoming : Incoming) :
    (wholeDispatch incoming).map content = (deliverWhole incoming).map some := by
  rw [wholeDispatch, deliverWhole]
  by_cases untyped : incoming.contentType = none
  · rw [if_pos untyped, if_pos untyped]
    rfl
  · rw [if_neg untyped, if_neg untyped, map_singleton, map_singleton, content_parsed]

theorem wholeDispatch_single (incoming : Incoming) :
    ∀ msg ∈ wholeDispatch incoming, msg.totalChunks ≠ 0 → ¬Terminated msg := by
  intro msg member several
  rw [wholeDispatch] at member
  by_cases untyped : incoming.contentType = none
  · rw [if_pos untyped] at member
    exact absurd member not_mem_nil
  · rw [if_neg untyped] at member
    rw [mem_singleton.mp member] at several
    exact absurd rfl several

theorem dispatchMsg_whole {messageId : Option (List UInt8)}
    (absent : ∀ id, messageId = some id → incoming.contentType ≠ none →
      cmdproc.multiparts.lookup id = none) :
    dispatchMsg (allocated cmdproc incoming) messageId cmdproc.heap.fresh =
      some { allocated cmdproc incoming with
        dispatched := cmdproc.dispatched ++ wholeDispatch incoming } := by
  rw [dispatchMsg, Heap.read, allocated_own, bind_some, wholeDispatch]
  by_cases untyped : incoming.contentType = none
  · rw [if_pos (show (parsedMessage incoming).contentType = none from untyped), if_pos untyped,
      append_nil]
    rfl
  · rw [if_neg (show ¬(parsedMessage incoming).contentType = none from untyped), if_neg untyped]
    cases messageId with
    | none => rfl
    | some id =>
      have notThere := absent id rfl untyped
      rw [elim_some]
      refine multipartsRemove_absent ?_
      exact notThere

/-! ### First parts -/

def firstMessage (incoming : Incoming) (chunks : UInt32) : MsnMessage :=
  { parsedMessage incoming with totalChunks := chunks, receivedChunks := 1 }

theorem firstMessage_assembled {id : List UInt8} (named : incoming.messageId = some id)
    (inRange : InRange chunks) (several : chunks ≠ 1) :
    Assembled id { total := chunks, contentType := incoming.contentType, parts := [incoming.body] }
      (firstMessage incoming chunks) where
  refs := rfl
  named := named
  contentType := rfl
  total := rfl
  received := rfl
  unfinished := by
    have positive : 0 < chunks.toNat := UInt32.lt_iff_toNat_lt.mp inRange.1
    have notOne : chunks.toNat ≠ 1 := fun same => several (UInt32.toNat_inj.mp same)
    change 1 < chunks.toNat
    omega
  bodyLen := by
    change incoming.body.length = ([incoming.body].flatten).length
    rw [flatten_cons, flatten_nil, append_nil]
  content := by
    change (parsedMessage incoming).body.load 0 (parsedMessage incoming).bodyLen = _
    rw [parsedMessage_loads, flatten_cons, flatten_nil, append_nil]

def started (cmdproc : MsnCmdProc) (incoming : Incoming) (id : List UInt8) (chunks : UInt32) :
    MsnCmdProc :=
  { cmdproc with
    heap := cmdproc.heap.alloc (firstMessage incoming chunks)
    multiparts := cmdproc.multiparts.insert id
      { key := cmdproc.heap.fresh, message := cmdproc.heap.fresh } }

/-- The state with the number of parts written, before the entry is there. -/
def counting (cmdproc : MsnCmdProc) (incoming : Incoming) (chunks : UInt32) : MsnCmdProc :=
  { cmdproc with heap := cmdproc.heap.alloc (firstMessage incoming chunks) }

/-- The state with the entry, before the caller drops its reference. -/
def inserting (cmdproc : MsnCmdProc) (incoming : Incoming) (id : List UInt8) (chunks : UInt32) :
    MsnCmdProc :=
  { started cmdproc incoming id chunks with
    heap := cmdproc.heap.alloc (addRef (firstMessage incoming chunks)) }

theorem msgCmdPost_first {id : List UInt8}
    (done : msnCmdprocProcessMsg (allocated cmdproc incoming) cmdproc.heap.fresh =
      processFirst (allocated cmdproc incoming) id chunks cmdproc.heap.fresh)
    (inRange : InRange chunks) (absent : cmdproc.multiparts.lookup id = none) :
    msgCmdPost cmdproc incoming = some (started cmdproc incoming id chunks) := by
  have live := allocated_own cmdproc incoming
  have counted : (allocated cmdproc incoming).heap.write cmdproc.heap.fresh
      (fun cell => { cell with totalChunks := chunks, receivedChunks := 1 }) =
      some (cmdproc.heap.alloc (firstMessage incoming chunks)) := by
    rw [Heap.write_live live, allocated, Heap.alloc_modify]
    rfl
  have cell : (cmdproc.heap.alloc (firstMessage incoming chunks)).cells cmdproc.heap.fresh =
      some (firstMessage incoming chunks) := by
    rw [Heap.alloc_cells, if_pos rfl]
  have kept : (cmdproc.heap.alloc (addRef (firstMessage incoming chunks))).cells
      cmdproc.heap.fresh = some (addRef (firstMessage incoming chunks)) := by
    rw [Heap.alloc_cells, if_pos rfl]
  have inserted : multipartsInsert (counting cmdproc incoming chunks) id cmdproc.heap.fresh =
      some (inserting cmdproc incoming id chunks) := by
    have looked : multipartsLookup (counting cmdproc incoming chunks) id = some none :=
      multipartsLookup_absent absent
    rw [multipartsInsert, looked, bind_some]
    change ((cmdproc.heap.alloc (firstMessage incoming chunks)).write _ addRef).bind _ = _
    rw [Heap.write_live cell, Heap.alloc_modify]
    rfl
  have two : (addRef (firstMessage incoming chunks)).refCount ≠ 1 :=
    (by decide : (1 : Nat) + 1 ≠ 1)
  have unref : msnMessageUnref (cmdproc.heap.alloc (addRef (firstMessage incoming chunks)))
      cmdproc.heap.fresh = some (cmdproc.heap.alloc (firstMessage incoming chunks)) := by
    rw [msnMessageUnref, Heap.read, kept, bind_some, if_neg two, Heap.write_live kept,
      Heap.alloc_modify]
    rfl
  change (msnCmdprocProcessMsg (allocated cmdproc incoming) cmdproc.heap.fresh).bind _ = _
  rw [done, processFirst, if_pos (show 0 < chunks ∧ chunks < 1024 from inRange), counted,
    bind_some]
  change (multipartsInsert (counting cmdproc incoming chunks) id cmdproc.heap.fresh).bind _ = _
  rw [inserted, bind_some]
  change (msnMessageUnref (cmdproc.heap.alloc (addRef (firstMessage incoming chunks)))
    cmdproc.heap.fresh).map _ = _
  rw [unref]
  rfl

theorem kept_started {id : List UInt8} (kept : Tabled history cmdproc)
    (named : incoming.messageId = some id) (role : incoming.role = .first chunks)
    (inRange : InRange chunks) (several : chunks ≠ 1) :
    Tabled (history ++ [incoming]) (started cmdproc incoming id chunks) := by
  refine ⟨fun other => ?_, ?_, kept.unterminated⟩
  · rw [pendingOf_concat]
    by_cases own : other = id
    · have starts : assemble (pendingOf id history) incoming =
          some { total := chunks, contentType := incoming.contentType
                 parts := [incoming.body] } := by
        rw [assemble, role]
        simp only [not_true, inRange, if_false, several]
      subst own
      rw [if_pos named, starts]
      refine ⟨_, firstMessage incoming chunks, HashTable.lookup_insert_self _ _ _, rfl, ?_,
        firstMessage_assembled named inRange several⟩
      change (cmdproc.heap.alloc (firstMessage incoming chunks)).cells cmdproc.heap.fresh = _
      rw [Heap.alloc_cells, if_pos rfl]
    · have notNamed : ¬incoming.messageId = some other := by
        rw [named]
        exact fun same => own (Option.some.inj same).symm
      have untouched : (started cmdproc incoming id chunks).multiparts.lookup other =
          cmdproc.multiparts.lookup other := HashTable.lookup_insert_other _ own _
      rw [if_neg notNamed, untouched]
      refine pending_frame (kept.pending other) fun entry _isEntry msg live => ?_
      change (cmdproc.heap.alloc (firstMessage incoming chunks)).cells entry.message = _
      rw [Heap.alloc_cells, if_neg (Nat.ne_of_lt (Heap.lt_fresh live)), live]
  · rw [deliveries_concat, nil_append, delivery_first named role several, append_nil]
    exact kept.dispatched

/-! ### Further parts -/

def grownMessage (first : MsnMessage) (old : List UInt8) (incoming : Incoming) : MsnMessage :=
  { first with
    body := (old ++ incoming.body).map some
    bodyLen := (old ++ incoming.body).length
    receivedChunks := first.receivedChunks + 1 }

theorem Assembled.next_iff {id : List UInt8} (assembled : Assembled id assembly first)
    (number : UInt32) : first.receivedChunks = number ↔ assembly.Next number := by
  rw [← UInt32.toNat_inj, assembled.received]
  rfl

theorem Assembled.counted {id : List UInt8} (assembled : Assembled id assembly first) :
    (first.receivedChunks + 1).toNat = assembly.parts.length + 1 := by
  have small : assembly.parts.length + 1 < 2 ^ 32 :=
    Nat.lt_of_le_of_lt assembled.unfinished assembly.total.toNat_lt
  rw [UInt32.toNat_add, assembled.received]
  exact Nat.mod_eq_of_lt small

theorem Assembled.last_iff {id : List UInt8} (assembled : Assembled id assembly first) :
    first.receivedChunks + 1 = first.totalChunks ↔ assembly.Last := by
  rw [← UInt32.toNat_inj, assembled.counted, assembled.total]
  rfl

theorem Assembled.grows {id : List UInt8} (assembled : Assembled id assembly first)
    (incoming : Incoming) :
    appendBody first (parsedMessage incoming) =
      some (grownMessage first assembly.parts.flatten incoming) :=
  appendBody_grows assembled.content assembled.bodyLen incoming

theorem grownMessage_loads (first : MsnMessage) (old : List UInt8) (incoming : Incoming) :
    (grownMessage first old incoming).body.load 0 (grownMessage first old incoming).bodyLen =
      some ((old ++ incoming.body).map some) := by
  have whole := Block.load_front [] ((old ++ incoming.body).map some) (prefix_refl _)
  rw [length_map] at whole
  exact whole

theorem Assembled.grown {id : List UInt8} (assembled : Assembled id assembly first)
    (incoming : Incoming) (notLast : ¬assembly.Last) :
    Assembled id { assembly with parts := assembly.parts ++ [incoming.body] }
      (grownMessage first assembly.parts.flatten incoming) where
  refs := assembled.refs
  named := assembled.named
  contentType := assembled.contentType
  total := assembled.total
  received := by
    rw [length_append, length_singleton]
    exact assembled.counted
  unfinished := by
    have before := assembled.unfinished
    have differs : assembly.parts.length + 1 ≠ assembly.total.toNat := notLast
    change (assembly.parts ++ [incoming.body]).length < assembly.total.toNat
    rw [length_append, length_singleton]
    omega
  bodyLen := by
    rw [flatten_concat]
    rfl
  content := by
    rw [flatten_concat]
    exact grownMessage_loads _ _ _

theorem grownMessage_unterminated (first : MsnMessage) (old : List UInt8) (incoming : Incoming) :
    ¬Terminated (grownMessage first old incoming) := by
  intro terminated
  change ((old ++ incoming.body).map some)[(old ++ incoming.body).length]? = _ at terminated
  rw [getElem?_eq_none (Nat.le_of_eq (length_map _))] at terminated
  cases terminated

theorem grownMessage_delivered {id : List UInt8} (assembled : Assembled id assembly first)
    (incoming : Incoming) :
    content (grownMessage first assembly.parts.flatten incoming) =
      some { contentType := assembly.contentType, total := assembly.total
             body := (assembly.parts ++ [incoming.body]).flatten } := by
  rw [content, grownMessage_loads, bind_some, mapM_stored, flatten_concat]
  change some _ = some _
  rw [show (grownMessage first assembly.parts.flatten incoming).contentType = assembly.contentType
      from assembled.contentType,
    show (grownMessage first assembly.parts.flatten incoming).totalChunks = assembly.total
      from assembled.total]

theorem kept_removed {history : List Incoming} {cmdproc : MsnCmdProc} {incoming : Incoming}
    {id : List UInt8} {entry : Multipart} (kept : Tabled history cmdproc)
    (named : incoming.messageId = some id)
    (present : cmdproc.multiparts.lookup id = some entry)
    (ended : assemble (pendingOf id history) incoming = none) {heap : Heap MsnMessage}
    {newest : List MsnMessage}
    (same : ∀ address msg, address ≠ entry.message → cmdproc.heap.cells address = some msg →
      heap.cells address = some msg)
    (delivered : newest.map content = (delivery history incoming).map some)
    (unterminated : ∀ msg ∈ newest, msg.totalChunks ≠ 0 → ¬Terminated msg) :
    Tabled (history ++ [incoming])
      (released
        { heap, multiparts := cmdproc.multiparts.remove id
          dispatched := cmdproc.dispatched ++ newest }
        cmdproc.heap.fresh) := by
  have own := kept.pending id
  rw [present] at own
  refine ⟨fun other => ?_, ?_, fun msg member => ?_⟩
  · rw [pendingOf_concat]
    by_cases equal : other = id
    · subst equal
      rw [if_pos named, ended]
      exact HashTable.lookup_remove_self _ _
    · have notNamed : ¬incoming.messageId = some other := by
        rw [named]
        exact fun same => equal (Option.some.inj same).symm
      have untouched : (cmdproc.multiparts.remove id).lookup other =
          cmdproc.multiparts.lookup other := HashTable.lookup_remove_other _ equal
      rw [if_neg notNamed]
      change Pending _ other ((cmdproc.multiparts.remove id).lookup other) _
      rw [untouched]
      refine pending_frame (kept.pending other) fun otherEntry isOther msg live => ?_
      have pending := kept.pending other
      rw [isOther] at pending
      have distinct := pending_distinct own pending equal
      change (heap.remove cmdproc.heap.fresh).cells otherEntry.message = some msg
      rw [Heap.remove_cells, if_neg (Nat.ne_of_lt (Heap.lt_fresh live))]
      exact same _ _ distinct live
  · change (cmdproc.dispatched ++ newest).map content = _
    rw [map_append, kept.dispatched, delivered, deliveries_concat, nil_append,
      map_append]
  · cases mem_append.mp member with
    | inl early => exact kept.unterminated msg early
    | inr late => exact unterminated msg late

/-! ### Processing -/

def processRole (cmdproc : MsnCmdProc) (msg : Nat) (cell : MsnMessage) (messageId : List UInt8) :
    Role → Option MsnCmdProc
  | .whole => dispatchMsg cmdproc (some messageId) msg
  | .first chunks => processFirst cmdproc messageId chunks msg
  | .chunk number =>
    (multipartsLookup cmdproc messageId).bind fun found =>
      found.elim (dispatchMsg cmdproc (some messageId) msg) fun entry =>
        processChunk cmdproc messageId entry number cell

theorem process_anonymous (anonymous : incoming.messageId = none) :
    msnCmdprocProcessMsg (allocated cmdproc incoming) cmdproc.heap.fresh =
      dispatchMsg (allocated cmdproc incoming) none cmdproc.heap.fresh := by
  have noHeader : msnMessageGetHeaderValue (parsedMessage incoming) "Message-ID" = none := anonymous
  rw [msnCmdprocProcessMsg, Heap.read, allocated_own, bind_some, noHeader]
  rfl

theorem process_named {cmdproc : MsnCmdProc} {incoming : Incoming} {id : List UInt8}
    (named : incoming.messageId = some id) :
    msnCmdprocProcessMsg (allocated cmdproc incoming) cmdproc.heap.fresh =
      processRole (allocated cmdproc incoming) cmdproc.heap.fresh (parsedMessage incoming) id
        incoming.role := by
  have header : msnMessageGetHeaderValue (parsedMessage incoming) "Message-ID" = some id := named
  have chunks : msnMessageGetHeaderValue (parsedMessage incoming) "Chunks" =
      incoming.header "Chunks" := rfl
  have chunk : msnMessageGetHeaderValue (parsedMessage incoming) "Chunk" =
      incoming.header "Chunk" := rfl
  rw [msnCmdprocProcessMsg, Heap.read, allocated_own, bind_some, header, elim_some,
    processIdentified, chunks, chunk, Incoming.role]
  cases incoming.header "Chunks" with
  | some text => rfl
  | none =>
    cases incoming.header "Chunk" with
    | some text => rfl
    | none => rfl

theorem process_chunk {id : List UInt8} (named : incoming.messageId = some id)
    (role : incoming.role = .chunk number) (present : cmdproc.multiparts.lookup id = some entry)
    (key : entry.key = entry.message) (live : cmdproc.heap.cells entry.message = some first) :
    msnCmdprocProcessMsg (allocated cmdproc incoming) cmdproc.heap.fresh =
      processChunk (allocated cmdproc incoming) id entry number (parsedMessage incoming) := by
  have alive := allocated_live incoming live
  have looked : multipartsLookup (allocated cmdproc incoming) id = some (some entry) :=
    multipartsLookup_present present (key ▸ alive)
  rw [process_named named, role, processRole, looked]
  rfl

theorem msgCmdPost_disordered {id : List UInt8} (kept : Tabled history cmdproc)
    (named : incoming.messageId = some id) (role : incoming.role = .chunk number)
    (found : pendingOf id history = some assembly) (notNext : ¬assembly.Next number) :
    ∃ next, msgCmdPost cmdproc incoming = some next ∧ Tabled (history ++ [incoming]) next := by
  have pending := kept.pending id
  rw [found] at pending
  obtain ⟨entry, first, present, key, live, assembled⟩ := pending
  have alive := allocated_live incoming live
  have different : entry.message ≠ cmdproc.heap.fresh := Nat.ne_of_lt (Heap.lt_fresh live)
  have wrong : first.receivedChunks ≠ number := fun same =>
    notNext ((assembled.next_iff number).mp same)
  have processed : msnCmdprocProcessMsg (allocated cmdproc incoming) cmdproc.heap.fresh =
      some { allocated cmdproc incoming with
        heap := (allocated cmdproc incoming).heap.remove entry.message
        multiparts := cmdproc.multiparts.remove id } := by
    rw [process_chunk named role present key live, processChunk, Heap.read, alive,
      bind_some, if_pos wrong]
    exact multipartsRemove_present present key alive assembled.refs
  have own : ((allocated cmdproc incoming).heap.remove entry.message).cells cmdproc.heap.fresh =
      some (parsedMessage incoming) := by
    rw [Heap.remove_cells, if_neg different.symm, allocated_own]
  have ended : assemble (pendingOf id history) incoming = none := by
    rw [assemble_chunk role, found, bind_some, addPart, if_pos (Or.inl notNext)]
  have nothing : delivery history incoming = [] := by
    rw [delivery_chunk named role, found]
    exact if_neg fun both => notNext both.1
  refine ⟨_, msgCmdPost_frees processed own rfl, ?_⟩
  have result := @kept_removed _ _ incoming _ _ kept named present ended
    ((allocated cmdproc incoming).heap.remove entry.message) [] ?_ (by rw [nothing]; rfl) nofun
  · rw [append_nil] at result
    exact result
  · intro address msg elsewhere before
    rw [Heap.remove_cells, if_neg elsewhere]
    exact allocated_live incoming before

def growing (cmdproc : MsnCmdProc) (incoming : Incoming) (entry : Multipart) (grown : MsnMessage) :
    MsnCmdProc :=
  { cmdproc with
    heap := (allocated cmdproc incoming).heap.modify entry.message fun _ => grown }

theorem processChunk_next {id : List UInt8} (live : cmdproc.heap.cells entry.message = some first)
    (assembled : Assembled id assembly first) (next : assembly.Next number) :
    processChunk (allocated cmdproc incoming) id entry number (parsedMessage incoming) =
      if assembly.Last then
        dispatchMsg
          (growing cmdproc incoming entry (grownMessage first assembly.parts.flatten incoming))
          (some id) entry.message
      else
        some (growing cmdproc incoming entry
          (grownMessage first assembly.parts.flatten incoming)) := by
  have alive := allocated_live incoming live
  have right : ¬first.receivedChunks ≠ number :=
    not_not.mpr ((assembled.next_iff number).mpr next)
  have written : (allocated cmdproc incoming).heap.write entry.message
      (fun _ => grownMessage first assembly.parts.flatten incoming) =
      some (growing cmdproc incoming entry
        (grownMessage first assembly.parts.flatten incoming)).heap := Heap.write_live alive _
  rw [processChunk, Heap.read, alive, bind_some, if_neg right, assembled.grows incoming,
    bind_some, written, bind_some]
  by_cases last : assembly.Last
  · have full : ¬(grownMessage first assembly.parts.flatten incoming).receivedChunks ≠
        (grownMessage first assembly.parts.flatten incoming).totalChunks :=
      not_not.mpr (assembled.last_iff.mpr last)
    rw [if_neg full, if_pos last]
    rfl
  · have waiting : (grownMessage first assembly.parts.flatten incoming).receivedChunks ≠
        (grownMessage first assembly.parts.flatten incoming).totalChunks :=
      fun same => last (assembled.last_iff.mp same)
    rw [if_pos waiting, if_neg last]
    rfl

theorem growing_cells {cmdproc : MsnCmdProc} {incoming : Incoming} {entry : Multipart}
    {first : MsnMessage} (live : cmdproc.heap.cells entry.message = some first)
    (grown : MsnMessage) :
    (growing cmdproc incoming entry grown).heap.cells entry.message = some grown := by
  change ((allocated cmdproc incoming).heap.modify _ _).cells _ = _
  rw [Heap.modify_cells, if_pos rfl, allocated_live incoming live]
  rfl

theorem growing_elsewhere (cmdproc : MsnCmdProc) (incoming : Incoming) (grown : MsnMessage)
    {address : Nat} (elsewhere : address ≠ entry.message) :
    (growing cmdproc incoming entry grown).heap.cells address =
      (allocated cmdproc incoming).heap.cells address := by
  change ((allocated cmdproc incoming).heap.modify _ _).cells _ = _
  rw [Heap.modify_cells, if_neg elsewhere]

theorem msgCmdPost_grows {id : List UInt8} (kept : Tabled history cmdproc)
    (named : incoming.messageId = some id) (role : incoming.role = .chunk number)
    (found : pendingOf id history = some assembly) (isNext : assembly.Next number)
    (notLast : ¬assembly.Last) :
    ∃ next, msgCmdPost cmdproc incoming = some next ∧ Tabled (history ++ [incoming]) next := by
  have pending := kept.pending id
  rw [found] at pending
  obtain ⟨entry, first, present, key, live, assembled⟩ := pending
  have different : entry.message ≠ cmdproc.heap.fresh := Nat.ne_of_lt (Heap.lt_fresh live)
  have processed : msnCmdprocProcessMsg (allocated cmdproc incoming) cmdproc.heap.fresh =
      some (growing cmdproc incoming entry
        (grownMessage first assembly.parts.flatten incoming)) := by
    rw [process_chunk named role present key live, processChunk_next live assembled isNext,
      if_neg notLast]
  have own : (growing cmdproc incoming entry
      (grownMessage first assembly.parts.flatten incoming)).heap.cells cmdproc.heap.fresh =
      some (parsedMessage incoming) := by
    rw [growing_elsewhere _ _ _ different.symm, allocated_own]
  have grows : assemble (pendingOf id history) incoming =
      some { assembly with parts := assembly.parts ++ [incoming.body] } := by
    rw [assemble_chunk role, found, bind_some, addPart,
      if_neg (not_or.mpr ⟨not_not.mpr isNext, notLast⟩)]
  have nothing : delivery history incoming = [] := by
    rw [delivery_chunk named role, found]
    exact if_neg fun both => notLast both.2
  refine ⟨_, msgCmdPost_frees processed own rfl, fun other => ?_, ?_, kept.unterminated⟩
  · rw [pendingOf_concat]
    by_cases equal : other = id
    · subst equal
      rw [if_pos named, grows]
      refine ⟨entry, _, present, key, ?_, assembled.grown incoming notLast⟩
      change (Heap.remove _ _).cells _ = _
      rw [Heap.remove_cells, if_neg different, growing_cells live]
    · have notNamed : ¬incoming.messageId = some other := by
        rw [named]
        exact fun same => equal (Option.some.inj same).symm
      rw [if_neg notNamed]
      refine pending_frame (kept.pending other) fun otherEntry isOther msg otherLive => ?_
      have there : cmdproc.multiparts.lookup other = some otherEntry := isOther
      have mine := kept.pending id
      have theirs := kept.pending other
      rw [present] at mine
      rw [there] at theirs
      change (Heap.remove _ _).cells _ = _
      rw [Heap.remove_cells, if_neg (Nat.ne_of_lt (Heap.lt_fresh otherLive)),
        growing_elsewhere _ _ _ (pending_distinct mine theirs equal)]
      exact allocated_live incoming otherLive
  · change cmdproc.dispatched.map content = _
    rw [deliveries_concat, nil_append, nothing, append_nil]
    exact kept.dispatched

theorem msgCmdPost_completes {id : List UInt8} (kept : Tabled history cmdproc)
    (named : incoming.messageId = some id) (role : incoming.role = .chunk number)
    (found : pendingOf id history = some assembly) (isNext : assembly.Next number)
    (last : assembly.Last) (typed : assembly.contentType ≠ none) :
    ∃ next, msgCmdPost cmdproc incoming = some next ∧ Tabled (history ++ [incoming]) next := by
  have pending := kept.pending id
  rw [found] at pending
  obtain ⟨entry, first, present, key, live, assembled⟩ := pending
  have different : entry.message ≠ cmdproc.heap.fresh := Nat.ne_of_lt (Heap.lt_fresh live)
  obtain ⟨grown, isGrown⟩ :
    ∃ grown, grown = grownMessage first assembly.parts.flatten incoming := ⟨_, rfl⟩
  have cell := @growing_cells cmdproc incoming entry first live grown
  have hasType : grown.contentType ≠ none := by
    rw [isGrown]
    exact fun untyped => typed (assembled.contentType ▸ untyped)
  have refs : grown.refCount = 1 := by
    rw [isGrown]
    exact assembled.refs
  have processed : msnCmdprocProcessMsg (allocated cmdproc incoming) cmdproc.heap.fresh =
      some
        { heap := (growing cmdproc incoming entry grown).heap.remove entry.message
          multiparts := cmdproc.multiparts.remove id
          dispatched := cmdproc.dispatched ++ [grown] } := by
    rw [process_chunk named role present key live, processChunk_next live assembled isNext,
      if_pos last, ← isGrown, dispatchMsg, Heap.read, cell, bind_some, if_neg hasType]
    exact multipartsRemove_present present key cell refs
  have own : ((growing cmdproc incoming entry grown).heap.remove entry.message).cells
      cmdproc.heap.fresh = some (parsedMessage incoming) := by
    rw [Heap.remove_cells, if_neg different.symm, growing_elsewhere _ _ _ different.symm,
      allocated_own]
  have ended : assemble (pendingOf id history) incoming = none := by
    rw [assemble_chunk role, found, bind_some, addPart, if_pos (Or.inr last)]
  have delivers : [grown].map content = (delivery history incoming).map some := by
    rw [delivery_chunk named role, found, elim_some, deliverChunk, if_pos ⟨isNext, last⟩,
      map_singleton, map_singleton, isGrown, grownMessage_delivered assembled]
  refine ⟨_, msgCmdPost_frees processed own rfl, ?_⟩
  refine kept_removed kept named present ended ?_ delivers ?_
  · intro address msg elsewhere before
    rw [Heap.remove_cells, if_neg elsewhere, growing_elsewhere _ _ _ elsewhere]
    exact allocated_live incoming before
  · intro msg member _several
    rw [mem_singleton.mp member, isGrown]
    exact grownMessage_unterminated _ _ _

/-! ### Runs -/

/-- What a message with an id must satisfy.  A count out of range, or a part that is not
the next one, is taken care of. -/
def Expected (pending : Option Assembly) (incoming : Incoming) : Prop :=
  match incoming.role with
  | .whole => incoming.contentType ≠ none → pending = none
  | .first chunks => InRange chunks → chunks ≠ 1 ∧ pending = none
  | .chunk number =>
    match pending with
    | none => incoming.contentType = none
    | some assembly => assembly.Next number → assembly.Last → assembly.contentType ≠ none

def AdmitsNext (history : List Incoming) (incoming : Incoming) : Prop :=
  ∀ id, incoming.messageId = some id → Expected (pendingOf id history) incoming

theorem lookup_absent (kept : Tabled history cmdproc) {id : List UInt8}
    (nothing : pendingOf id history = none) : cmdproc.multiparts.lookup id = none := by
  have pending := kept.pending id
  rw [nothing] at pending
  exact pending

theorem pendingOf_still {id : List UInt8} (named : incoming.messageId = some id)
    (still : assemble (pendingOf id history) incoming = pendingOf id history) (other : List UInt8) :
    pendingOf other (history ++ [incoming]) = pendingOf other history := by
  rw [pendingOf_concat]
  by_cases own : incoming.messageId = some other
  · have same : id = other := Option.some.inj (named.symm.trans own)
    rw [if_pos own, ← same, still]
  · rw [if_neg own]

theorem msgCmdPost_alone {messageId : Option (List UInt8)} (kept : Tabled history cmdproc)
    (dispatches : msnCmdprocProcessMsg (allocated cmdproc incoming) cmdproc.heap.fresh =
      dispatchMsg (allocated cmdproc incoming) messageId cmdproc.heap.fresh)
    (absent : ∀ id, messageId = some id → incoming.contentType ≠ none →
      cmdproc.multiparts.lookup id = none)
    (still : ∀ id, pendingOf id (history ++ [incoming]) = pendingOf id history)
    (delivers : delivery history incoming = deliverWhole incoming) :
    ∃ next, msgCmdPost cmdproc incoming = some next ∧ Tabled (history ++ [incoming]) next := by
  rw [dispatchMsg_whole absent] at dispatches
  refine ⟨_, msgCmdPost_frees dispatches (allocated_own cmdproc incoming) rfl, ?_⟩
  refine kept_unchanged kept (fun _ _ => allocated_live incoming) still ?_
    (wholeDispatch_single incoming)
  rw [delivers, wholeDispatch_delivered]

theorem msgCmdPost_whole {id : List UInt8} (kept : Tabled history cmdproc)
    (named : incoming.messageId = some id) (role : incoming.role = .whole)
    (expected : incoming.contentType ≠ none → pendingOf id history = none) :
    ∃ next, msgCmdPost cmdproc incoming = some next ∧ Tabled (history ++ [incoming]) next := by
  have dispatches := @process_named cmdproc incoming id named
  rw [role] at dispatches
  refine msgCmdPost_alone kept dispatches (fun other same typed => ?_)
    (pendingOf_still named (by rw [assemble, role])) ?_
  · cases same
    exact lookup_absent kept (expected typed)
  · rw [delivery, named, elim_some, deliverIdentified, role]

theorem msgCmdPost_outOfRange {id : List UInt8} (kept : Tabled history cmdproc)
    (named : incoming.messageId = some id) (role : incoming.role = .first chunks)
    (outOfRange : ¬InRange chunks) :
    ∃ next, msgCmdPost cmdproc incoming = some next ∧ Tabled (history ++ [incoming]) next := by
  have processed := @process_named cmdproc incoming id named
  have notUsed : ¬(0 < chunks ∧ chunks < 1024) := outOfRange
  rw [role, processRole, processFirst, if_neg notUsed] at processed
  refine ⟨_, msgCmdPost_frees processed (allocated_own cmdproc incoming) rfl, ?_⟩
  have still : assemble (pendingOf id history) incoming = pendingOf id history := by
    rw [assemble, role]
    exact if_pos outOfRange
  have notOne : chunks ≠ 1 := by
    rintro rfl
    exact outOfRange (by decide)
  have nothing : delivery history incoming = [] := delivery_first named role notOne history
  have result := @kept_unchanged _ _ incoming kept (allocated cmdproc incoming).heap []
    (fun _ _ => allocated_live incoming) (pendingOf_still named still) (by rw [nothing]; rfl) nofun
  rw [append_nil] at result
  exact result

theorem msgCmdPost_orphan {id : List UInt8} (kept : Tabled history cmdproc)
    (named : incoming.messageId = some id) (role : incoming.role = .chunk number)
    (nothing : pendingOf id history = none) (untyped : incoming.contentType = none) :
    ∃ next, msgCmdPost cmdproc incoming = some next ∧ Tabled (history ++ [incoming]) next := by
  have looked : multipartsLookup (allocated cmdproc incoming) id = some none :=
    multipartsLookup_absent (lookup_absent kept nothing)
  have dispatches := @process_named cmdproc incoming id named
  rw [role, processRole, looked, bind_some, elim_none] at dispatches
  refine msgCmdPost_alone kept dispatches (fun _ _ typed => absurd untyped typed)
    (pendingOf_still named ?_) ?_
  · rw [assemble_chunk role, nothing]
    rfl
  · rw [delivery_chunk named role, nothing, deliverWhole, if_pos untyped]
    rfl

theorem msgCmdPost_kept (kept : Tabled history cmdproc) (admissible : AdmitsNext history incoming) :
    ∃ next, msgCmdPost cmdproc incoming = some next ∧ Tabled (history ++ [incoming]) next := by
  cases named : incoming.messageId with
  | none =>
    refine msgCmdPost_alone kept (process_anonymous named) nofun (fun _ => ?_) ?_
    · rw [pendingOf_concat, named]
      exact if_neg nofun
    · rw [delivery, named, elim_none]
  | some id =>
    have expected := admissible id named
    cases role : incoming.role with
    | whole =>
      rw [Expected, role] at expected
      exact msgCmdPost_whole kept named role expected
    | first chunks =>
      rw [Expected, role] at expected
      by_cases inRange : InRange chunks
      · obtain ⟨several, nothing⟩ := expected inRange
        have processed := @process_named cmdproc incoming id named
        rw [role] at processed
        exact ⟨_, msgCmdPost_first processed inRange (lookup_absent kept nothing),
          kept_started kept named role inRange several⟩
      · exact msgCmdPost_outOfRange kept named role inRange
    | chunk number =>
      rw [Expected, role] at expected
      cases found : pendingOf id history with
      | none =>
        rw [found] at expected
        exact msgCmdPost_orphan kept named role found expected
      | some assembly =>
        rw [found] at expected
        by_cases isNext : assembly.Next number
        · by_cases last : assembly.Last
          · exact msgCmdPost_completes kept named role found isNext last
              (expected isNext last)
          · exact msgCmdPost_grows kept named role found isNext last
        · exact msgCmdPost_disordered kept named role found isNext

/-! ### What a run leaves -/

structure PutTogether (messages : List Incoming) (cmdproc : MsnCmdProc) : Prop where
  alive : ∀ id entry, cmdproc.multiparts.lookup id = some entry →
    (∃ owner, cmdproc.heap.cells entry.key = some owner ∧
      msnMessageGetHeaderValue owner "Message-ID" = some id) ∧
    ∃ msg, cmdproc.heap.cells entry.message = some msg
  bounded : ∀ id entry msg, cmdproc.multiparts.lookup id = some entry →
    cmdproc.heap.cells entry.message = some msg → msg.receivedChunks < msg.totalChunks
  pending : ∀ id, Pending cmdproc.heap id (cmdproc.multiparts.lookup id) (pendingOf id messages)
  dispatched : cmdproc.dispatched.map content = (deliveries [] messages).map some

/-- The message is the last part of one whose other parts have arrived. -/
def Completes (before : List Incoming) (incoming : Incoming) : Prop :=
  ∃ id number assembly, incoming.messageId = some id ∧ incoming.role = .chunk number ∧
    pendingOf id before = some assembly ∧ assembly.Next number ∧ assembly.Last

def NulTerminated (cmdproc : MsnCmdProc) : Prop :=
  ∀ msg ∈ cmdproc.dispatched, msg.totalChunks ≠ 0 → Terminated msg

theorem Pending.present {id : List UInt8} {assembly : Option Assembly}
    (pending : Pending heap id (some entry) assembly) :
    ∃ assembled msg, entry.key = entry.message ∧ heap.cells entry.message = some msg ∧
      Assembled id assembled msg := by
  cases assembly with
  | none => cases pending
  | some assembled =>
    obtain ⟨found, msg, same, key, live, holds⟩ := pending
    cases same
    exact ⟨assembled, msg, key, live, holds⟩

theorem Tabled.putTogether (kept : Tabled messages cmdproc) : PutTogether messages cmdproc where
  alive := by
    intro id entry found
    have pending := kept.pending id
    rw [found] at pending
    obtain ⟨_assembly, msg, key, live, assembled⟩ := pending.present
    exact ⟨⟨msg, key ▸ live, assembled.named⟩, msg, live⟩
  bounded := by
    intro id entry msg found live
    have pending := kept.pending id
    rw [found] at pending
    obtain ⟨assembly, same, _key, alive, assembled⟩ := pending.present
    rw [alive] at live
    cases live
    rw [UInt32.lt_iff_toNat_lt, assembled.received, assembled.total]
    exact assembled.unfinished
  pending := kept.pending
  dispatched := kept.dispatched

theorem content_total {delivered : Delivery} (isContent : content msg = some delivered) :
    delivered.total = msg.totalChunks := by
  obtain ⟨body, _loads, rfl⟩ := map_eq_some_iff.mp isContent
  rfl

theorem Tabled.nulTerminated_iff (kept : Tabled messages cmdproc) :
    NulTerminated cmdproc ↔ ∀ delivered ∈ deliveries [] messages, delivered.total = 0 := by
  constructor
  · intro terminated delivered member
    have recorded : some delivered ∈ cmdproc.dispatched.map content := by
      rw [kept.dispatched]
      exact List.mem_map_of_mem member
    obtain ⟨msg, isThere, isContent⟩ := List.mem_map.mp recorded
    by_contra several
    rw [content_total isContent] at several
    exact kept.unterminated msg isThere several (terminated msg isThere several)
  · intro single msg member several
    have recorded : content msg ∈ (deliveries [] messages).map some := by
      rw [← kept.dispatched]
      exact List.mem_map_of_mem member
    obtain ⟨delivered, isThere, isContent⟩ := List.mem_map.mp recorded
    exact absurd ((content_total isContent.symm).symm.trans (single delivered isThere)) several

theorem deliverWhole_single {delivered : Delivery} (member : delivered ∈ deliverWhole incoming) :
    delivered.total = 0 := by
  rw [deliverWhole] at member
  by_cases untyped : incoming.contentType = none
  · rw [if_pos untyped] at member
    cases member
  · rw [if_neg untyped] at member
    rw [mem_singleton.mp member]

theorem delivery_single_iff {before : List Incoming} (admissible : AdmitsNext before incoming) :
    (∀ delivered ∈ delivery before incoming, delivered.total = 0) ↔
      ¬Completes before incoming := by
  constructor
  · rintro single ⟨id, number, assembly, named, role, found, isNext, last⟩
    rw [delivery_chunk named role, found, elim_some, deliverChunk,
      if_pos ⟨isNext, last⟩] at single
    have zero : assembly.total = 0 := single _ (mem_singleton.mpr rfl)
    have positive : assembly.parts.length + 1 = assembly.total.toNat := last
    rw [zero] at positive
    exact absurd positive (Nat.succ_ne_zero _)
  · intro unfinished delivered member
    cases named : incoming.messageId with
    | none =>
      rw [delivery, named, elim_none] at member
      exact deliverWhole_single member
    | some id =>
      cases role : incoming.role with
      | whole =>
        rw [delivery, named, elim_some, deliverIdentified, role] at member
        exact deliverWhole_single member
      | first chunks =>
        have expected := admissible id named
        rw [Expected, role] at expected
        have notOne : chunks ≠ 1 := by
          rintro rfl
          exact (expected (by decide)).1 rfl
        rw [delivery_first named role notOne] at member
        cases member
      | chunk number =>
        rw [delivery_chunk named role] at member
        cases found : pendingOf id before with
        | none =>
          rw [found] at member
          cases member
        | some assembly =>
          rw [found, elim_some, deliverChunk] at member
          by_cases both : assembly.Next number ∧ assembly.Last
          · exact absurd ⟨id, number, assembly, named, role, found, both⟩ unfinished
          · rw [if_neg both] at member
            cases member

def AdmissibleRun (messages : List Incoming) : Prop :=
  ∀ before incoming, before ++ [incoming] <+: messages → AdmitsNext before incoming

theorem AdmissibleRun.front {messages earlier : List Incoming} (admissible : AdmissibleRun messages)
    (front : earlier <+: messages) : AdmissibleRun earlier :=
  fun before incoming reached => admissible before incoming (reached.trans front)

theorem concat_prefix_concat {before : List Incoming} {last : Incoming}
    (reached : before ++ [incoming] <+: messages ++ [last]) :
    before = messages ∧ incoming = last ∨ before ++ [incoming] <+: messages := by
  rcases prefix_concat_iff.mp reached with same | front
  · obtain ⟨isFront, isLast⟩ := append_inj' same rfl
    exact .inl ⟨isFront, singleton_inj.mp isLast⟩
  · exact .inr front

theorem AdmissibleRun.nil : AdmissibleRun [] := fun _ _ reached =>
  absurd (prefix_nil.mp reached) (append_ne_nil_of_right_ne_nil _ nofun)

theorem AdmissibleRun.concat (admissible : AdmissibleRun messages) {last : Incoming}
    (newest : AdmitsNext messages last) : AdmissibleRun (messages ++ [last]) := by
  intro before incoming reached
  rcases concat_prefix_concat reached with ⟨rfl, rfl⟩ | front
  · exact newest
  · exact admissible before incoming front

theorem deliveries_single_iff (admissible : AdmissibleRun messages) :
    (∀ delivered ∈ deliveries [] messages, delivered.total = 0) ↔
      ∀ before incoming, before ++ [incoming] <+: messages → ¬Completes before incoming := by
  induction messages using List.reverseRecOn with
  | nil =>
    refine ⟨fun _ before incoming reached => ?_, fun _ => nofun⟩
    exact absurd (prefix_nil.mp reached) (append_ne_nil_of_right_ne_nil _ nofun)
  | append_singleton messages last ih =>
    have earlier := ih (admissible.front (prefix_append _ _))
    have newest := delivery_single_iff (admissible messages last (prefix_refl _))
    rw [deliveries_concat, nil_append]
    simp only [mem_append, or_imp, forall_and, earlier, newest]
    constructor
    · rintro ⟨before, now⟩ done incoming reached
      rcases concat_prefix_concat reached with ⟨rfl, rfl⟩ | front
      · exact now
      · exact before done incoming front
    · intro never
      exact ⟨fun done incoming front =>
        never done incoming (front.trans (prefix_append _ _)),
        never messages last (prefix_refl _)⟩

theorem run_kept (admissible : AdmissibleRun messages) :
    ∃ last, PartialRun.run msgCmdPost MsnCmdProc.start messages = some last ∧
      Tabled messages last := by
  induction messages using List.reverseRecOn with
  | nil => exact ⟨_, rfl, fun _ => rfl, rfl, nofun⟩
  | append_singleton messages incoming ih =>
    obtain ⟨middle, ran, kept⟩ := ih (admissible.front (prefix_append _ _))
    obtain ⟨next, posted, after⟩ :=
      msgCmdPost_kept kept (admissible messages incoming (prefix_refl _))
    refine ⟨next, ?_, after⟩
    rw [PartialRun.run_append, ran, bind_some, PartialRun.run_cons, posted]
    rfl

/-- In every run of admissible messages, the table and what is dispatched are as the
messages say after each of them, and the bodies that are dispatched end with a NUL as
long as no message was put together. -/
theorem multiparts_putTogether (messages : List Incoming) (admissible : AdmissibleRun messages)
    (done : List Incoming) (reached : done <+: messages) :
    ∃ last, PartialRun.run msgCmdPost MsnCmdProc.start done = some last ∧ PutTogether done last ∧
      (NulTerminated last ↔
        ∀ before incoming, before ++ [incoming] <+: done → ¬Completes before incoming) := by
  have early := admissible.front reached
  obtain ⟨last, ran, kept⟩ := run_kept early
  exact ⟨last, ran, kept.putTogether, kept.nulTerminated_iff.trans (deliveries_single_iff early)⟩

def partHeaders (name value : String) : HashTable (List UInt8) (List UInt8) :=
  (HashTable.empty.insert (ascii "Message-ID") (ascii "a")).insert (ascii name) (ascii value)

def firstPart : Incoming :=
  { contentType := some (ascii "text/plain"), headers := partHeaders "Chunks" "2"
    body := ascii "he" }

def secondPart : Incoming :=
  { contentType := none, headers := partHeaders "Chunk" "1", body := ascii "llo" }

theorem parts_admissible : AdmissibleRun [firstPart, secondPart] := by
  have first : AdmitsNext [] firstPart := by
    intro id _named
    have role : firstPart.role = .first 2 := rfl
    rw [Expected, role]
    exact fun _inRange => ⟨by decide, rfl⟩
  have second : AdmitsNext [firstPart] secondPart := by
    intro id named
    have isA : id = ascii "a" := (Option.some.inj named).symm
    have role : secondPart.role = .chunk 1 := rfl
    have found : pendingOf (ascii "a") [firstPart] =
        some { total := 2, contentType := some (ascii "text/plain"), parts := [ascii "he"] } := rfl
    rw [isA, Expected, role, found]
    exact fun _isNext _last => nofun
  exact (AdmissibleRun.nil.concat first).concat second

theorem multiparts_putTogether_parts :
    ∃ last, PartialRun.run msgCmdPost MsnCmdProc.start [firstPart, secondPart] = some last ∧
      PutTogether [firstPart, secondPart] last ∧
      (NulTerminated last ↔ ∀ before incoming,
        before ++ [incoming] <+: [firstPart, secondPart] → ¬Completes before incoming) :=
  multiparts_putTogether _ parts_admissible _ (prefix_refl _)

/-- The key of the first entry goes with its message. -/
theorem repeatedFirst_not_putTogether :
    ¬∀ messages : List Incoming,
      ∃ last, PartialRun.run msgCmdPost MsnCmdProc.start messages = some last ∧
        PutTogether messages last ∧ NulTerminated last := by
  intro putTogether
  obtain ⟨last, ran, sound, _terminated⟩ := putTogether [firstPart, firstPart]
  have entry : (PartialRun.run msgCmdPost MsnCmdProc.start [firstPart, firstPart]).map
      (fun cmdproc => (cmdproc.multiparts.lookup (ascii "a")).map Multipart.key) =
      some (some 0) := by
    decide
  have freed : (PartialRun.run msgCmdPost MsnCmdProc.start [firstPart, firstPart]).map
      (fun cmdproc => (cmdproc.heap.cells 0).isSome) = some false := by
    decide
  rw [ran] at entry freed
  obtain ⟨found, present, isKey⟩ := map_eq_some_iff.mp (Option.some.inj entry)
  obtain ⟨⟨owner, live, _named⟩, _message⟩ := sound.alive _ found present
  rw [isKey] at live
  have gone : (last.heap.cells 0).isSome = false := Option.some.inj freed
  rw [live] at gone
  cases gone

end Purple.Msn
