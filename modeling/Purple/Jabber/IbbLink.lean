/-
The two ends of an in-band bytestream: `jabber_ibb_session_send_data` at the one, whose
session stays open, and `jabber_ibb_parse` at the other.

The server keeps the stanzas from the one to the other in order.  The coded form of no
bytes is no text, so that such a stanza has no contents.
-/

import Purple.Decimal
import Purple.Jabber.IbbDelivery

namespace Purple.Jabber.Ibb

open List Option CString PartialRun Decimal

structure SendingSession where
  blockSize : Nat
  sendSeq : UInt16

/-- `floor((block_size - 2) * (float) 3 / 4)`, where no digit of the `float` is lost. -/
def jabberIbbSessionGetMaxDataSize (sess : SendingSession) : Option Nat :=
  if 2 ≤ sess.blockSize ∧ sess.blockSize ≤ 2 ^ 22 then some ((sess.blockSize - 2) * 3 / 4)
  else none

/-- The `seq` of a data stanza, and its decoded contents. -/
structure Block where
  seq : Bytes
  rawdata : Option Bytes
  deriving DecidableEq, Repr

/-- The stanza, if the data are not too large. -/
def jabberIbbSessionSendData (sess : SendingSession) (data : Bytes) :
    Option (SendingSession × Option Block) :=
  (jabberIbbSessionGetMaxDataSize sess).map fun most =>
    if most < data.length then (sess, none)
    else
      ({ sess with sendSeq := sess.sendSeq + 1 },
        some ⟨printInt sess.sendSeq.toNat, if data = [] then none else some data⟩)

/-- `taken` are the data that were sent in stanzas, and `flying` the stanzas on their way. -/
structure Link where
  sender : SendingSession
  taken : List Bytes
  flying : List Block
  world : World

inductive Move
  | send (data : Bytes)
  | arrive (id : Bytes) (during : Behaviour)

def Link.step (sess : Nat) (sid peer : Bytes) (link : Link) : Move → Option Link
  | .send data => (jabberIbbSessionSendData link.sender data).map fun result =>
    { link with
      sender := result.1
      taken := link.taken ++ (result.2.map fun _ => data).toList
      flying := link.flying ++ result.2.toList }
  | .arrive id during =>
    match link.flying with
    | [] => some link
    | block :: flying =>
      (deliverStep sess sid link.world (.data (some peer) id (some block.seq) block.rawdata during)).map
        fun world => { link with flying, world }

/-- There are data to send; and the end that receives has a callback for them, which leaves
the session open. -/
def Link.Admits (sess : Nat) (link : Link) : Move → Prop
  | .send data => data ≠ []
  | .arrive _ during => during.ends = false ∧
    ∀ session, link.world.sessions sess = some session → session.dataReceivedCb

/-- The blocks are numbered from `count` on. -/
def Numbered (blockSize : Nat) : Nat → List Block → Prop
  | _, [] => True
  | count, block :: rest => Counts (some block.seq) count ∧
    (∃ data, block.rawdata = some data ∧ data.length ≤ blockSize) ∧ Numbered blockSize (count + 1) rest

/-- What was sent is what the callback was given and then what is on its way. -/
structure InOrder (sess : Nat) (sid peer : Bytes) (blockSize : Nat) (start : World) (link : Link)
    (accepted : List (Bytes × Bytes)) : Prop where
  follows : Follows sess sid peer blockSize start link.world ⟨accepted, true⟩
  numbered : Numbered blockSize accepted.length link.flying
  sum : link.taken = accepted.map Prod.snd ++ link.flying.map fun block => block.rawdata.getD []
  size : link.sender.blockSize = blockSize
  sendSeq : link.sender.sendSeq = UInt16.ofNat link.taken.length

variable {sess blockSize count : Nat} {sid peer : Bytes} {start : World} {link : Link}
  {accepted : List (Bytes × Bytes)}

theorem numbered_append {blocks more : List Block} :
    Numbered blockSize count (blocks ++ more) ↔
      Numbered blockSize count blocks ∧ Numbered blockSize (count + blocks.length) more := by
  induction blocks generalizing count with
  | nil => exact ⟨fun numbered => ⟨trivial, numbered⟩, And.right⟩
  | cons block blocks ih =>
    rw [cons_append, Numbered, Numbered, ih, length_cons, Nat.add_right_comm, Nat.add_assoc,
      and_assoc, and_assoc]

theorem counts_printInt (count : Nat) :
    Counts (some (printInt (UInt16.ofNat count).toNat)) count := by
  have small := (UInt16.ofNat count).toNat_lt
  refine ⟨_, rfl, ?_⟩
  rw [atoi_printInt (by omega) (by omega), UInt16.toNat_ofNat']
  omega

theorem sent_inOrder (inOrder : InOrder sess sid peer blockSize start link accepted)
    (sized : 2 ≤ blockSize ∧ blockSize ≤ 2 ^ 22) {data : Bytes} (filled : data ≠ []) :
    ∃ next, link.step sess sid peer (.send data) = some next ∧
      InOrder sess sid peer blockSize start next accepted := by
  have most : jabberIbbSessionGetMaxDataSize link.sender = some ((blockSize - 2) * 3 / 4) := by
    rw [jabberIbbSessionGetMaxDataSize, inOrder.size, if_pos sized]
  rw [Link.step, jabberIbbSessionSendData, most, map_some, map_some]
  refine ⟨_, rfl, ?_⟩
  by_cases large : (blockSize - 2) * 3 / 4 < data.length
  · rw [if_pos large]
    refine ⟨inOrder.follows, ?_, ?_, inOrder.size, ?_⟩
    · exact (append_nil link.flying).symm ▸ inOrder.numbered
    · change link.taken ++ [] = _ ++ (link.flying ++ []).map _
      rw [append_nil, append_nil, inOrder.sum]
    · change _ = UInt16.ofNat (link.taken ++ []).length
      rw [append_nil, inOrder.sendSeq]
  · rw [if_neg large, if_neg filled]
    have total := congrArg length inOrder.sum
    rw [length_append, length_map, length_map] at total
    refine ⟨inOrder.follows, ?_, ?_, inOrder.size, ?_⟩
    · refine numbered_append.mpr ⟨inOrder.numbered, ?_, ⟨data, rfl, by omega⟩, trivial⟩
      rw [inOrder.sendSeq, total]
      exact counts_printInt _
    · change link.taken ++ [data] = _ ++ (link.flying ++ [_]).map _
      rw [inOrder.sum, map_append, append_assoc]
      rfl
    · change link.sender.sendSeq + 1 = UInt16.ofNat (link.taken ++ [data]).length
      rw [inOrder.sendSeq, length_append, UInt16.ofNat_add]
      rfl

theorem arrived_inOrder (inOrder : InOrder sess sid peer blockSize start link accepted)
    {id : Bytes} {during : Behaviour} (admitted : link.Admits sess (.arrive id during)) :
    ∃ next accepted, link.step sess sid peer (.arrive id during) = some next ∧
      InOrder sess sid peer blockSize start next accepted := by
  obtain ⟨stays, listens⟩ := admitted
  rw [Link.step]
  cases flying : link.flying with
  | nil => exact ⟨link, accepted, rfl, inOrder⟩
  | cons block rest =>
    have numbered := inOrder.numbered
    have sum := inOrder.sum
    rw [flying] at numbered sum
    obtain ⟨counts, ⟨data, contents, fits⟩, later⟩ := numbered
    have alive : during.destroys = false := (Bool.or_eq_false_iff.mp stays).1
    have handled : Handled sess link.world
        (.data (some peer) id (some block.seq) block.rawdata during) := by
      intro session live
      refine ⟨some_ne_none peer, ?_⟩
      rintro _ _ _ _ _ ⟨rfl⟩ _ _
      obtain ⟨other, found, held⟩ | ⟨gone, -⟩ := inOrder.follows.held
      · cases found.symm.trans live
        exact ⟨held.opened.mpr rfl, listens session live, contents ▸ some_ne_none data, alive⟩
      · cases gone.symm.trans live
    have within : Fits blockSize (.data (some peer) id (some block.seq) block.rawdata during) := by
      intro payload same
      cases contents.symm.trans same
      exact fits
    obtain ⟨world, delivered, follows⟩ := deliver_follows inOrder.follows handled within
    rw [expect, if_neg (not_not.mpr rfl), if_pos ⟨rfl, counts⟩, stays, contents] at follows
    rw [contents] at delivered
    refine ⟨{ link with flying := rest, world }, accepted ++ [(id, data)], ?_, follows, ?_, ?_,
      inOrder.size, inOrder.sendSeq⟩
    · dsimp only
      rw [contents, delivered]
      rfl
    · rw [length_append]
      exact later
    · rw [sum, map_append, append_assoc, map_cons, contents]
      rfl

/-- Nothing was sent yet. -/
def Link.opening (session : JabberIBBSession) (world : World) : Link :=
  ⟨⟨session.blockSize, 0⟩, [], [], world⟩

end Purple.Jabber.Ibb
